import Yancat.Atomicity
import Yancat.ExitStatus

/-!
# Runs of the two tasks by statements

What was shown of runs in which either part of a mutex section is one step holds
of the runs in which each of its statements is one: the same states are reached
between the parts, the tasks come to an end, and at every instant, inside a part as
well, the memory being filled, the memory being written out, the grant being
picked up and the output are as they should be.
-/

namespace Yancat.TwoTask

open Buffer Setup Shared Transition ByteStream ExitStatus FailureFlags
open Sections (Mid Label)
open Sections.System (Between whole_closed whole_open whole_keeps allowed_any fine_iff)

variable {opts : OptionsS} {buf : BufS} {ok : Sys → Act → Prop} {s t : Sys} {k k' : Sec}
  {f f' : Mid Sys Task Sec}

/-- The two tasks with every statement of a mutex section a step of its own. -/
abbrev stmtStep (opts : OptionsS) : Mid Sys Task Sec → Label Act Task → Option (Mid Sys Task Sec) :=
  (sections opts).fine

/-- Both tasks before their open calls, and no section open. -/
abbrev Mid.init (buf : BufS) : Mid Sys Task Sec := .outside (Sys.init buf)

/-- Reachable by statements, with the restriction checked where a section begins. -/
theorem run_allowed (h : Reach (stmtStep opts) (Mid.init buf) f) :
    Run (stmtStep opts) ((sections opts).allowed anyStep) (Mid.init buf) f :=
  h.mono fun f l _ => allowed_any _ f l

/-- Between two statements at most one section is open, by the holder of the
mutex, and its end is reached by sections. -/
theorem between (h : Reach (stmtStep opts) (Mid.init buf) f) :
    Between (sections opts) anyStep (Sys.init buf) f :=
  Between.run (atomic opts buf fun _ _ _ _ _ => trivial) (visible opts buf) (run_allowed h)

/-- What a section does not touch after its first statement: what was moved, and
the buffer but for its stall flags. -/
def Sys.kept (s : Sys) : Trace×BufS := (s.tr,stalls s.shm.buf false false)

/-- No statement of a section touches it. -/
theorem stmt_keeps (opts : OptionsS) (i : Task) (k : Sec) (s : Sys) :
    ((sections opts).stmt i k s).1.kept=s.kept := by
  cases i with
  | reader =>
    obtain ⟨d,rpc,er,ew,o,hput,_⟩ := readerStmt_put s k
    rw [show (sections opts).stmt .reader k s=readerStmt s k from rfl,hput s ⟨.refl _,rfl⟩ rfl]
    rfl
  | writer =>
    obtain ⟨d,wpc,er,ew,o,hput,_⟩ := writerStmt_put s k
    rw [show (sections opts).stmt .writer k s=writerStmt s k from rfl,hput s ⟨.refl _,rfl⟩ rfl]
    rfl

/-- What a section does not touch is what it was when the section began. -/
theorem whole_kept (opts : OptionsS) (f : Mid Sys Task Sec) :
    ((sections opts).whole f).kept=f.base.kept :=
  whole_keeps (fun i k s => stmt_keeps opts i k s) f

/-- A task with an open section is at a position inside the mutex. -/
structure Seated (f : Mid Sys Task Sec) : Prop where
  /-- The reading task. -/
  reader : ∀ k,f.inside .reader=some k → f.base.rpc.holds=true
  /-- The writing task. -/
  writer : ∀ k,f.inside .writer=some k → f.base.wpc.holds=true

/-- Before its last statement a section does not move its task. -/
theorem readerStmt_rpc (h : (readerStmt s k).2=some k') : (readerStmt s k).1.rpc=s.rpc := by
  cases k with
  | leave => cases h
  | unlock siz => cases siz <;> cases h
  | store siz => cases h
  | test =>
    unfold readerStmt at h ⊢
    split_ifs at h ⊢
    rfl
  | offer p =>
    unfold readerStmt at h ⊢
    dsimp only at h ⊢
    split at h
    · rfl
    · split_ifs at h ⊢
      rfl
  | _ => rfl

/-- Before its last statement a section does not move its task. -/
theorem writerStmt_wpc (h : (writerStmt s k).2=some k') : (writerStmt s k).1.wpc=s.wpc := by
  cases k with
  | leave => cases h
  | unlock siz => cases siz <;> cases h
  | store siz => cases h
  | test =>
    unfold writerStmt at h ⊢
    split_ifs at h ⊢
    rfl
  | offer p =>
    unfold writerStmt at h ⊢
    dsimp only at h ⊢
    split at h
    · rfl
    · split_ifs at h ⊢
      rfl
  | _ => rfl

/-- A section of the reading task does not move the writing task. -/
theorem readerStmt_wpc (s : Sys) (k : Sec) : (readerStmt s k).1.wpc=s.wpc := by
  obtain ⟨d,rpc,er,ew,o,hput,_⟩ := readerStmt_put s k
  rw [hput s ⟨.refl _,rfl⟩ rfl]
  rfl

/-- A section of the writing task does not move the reading task. -/
theorem writerStmt_rpc (s : Sys) (k : Sec) : (writerStmt s k).1.rpc=s.rpc := by
  obtain ⟨d,wpc,er,ew,o,hput,_⟩ := writerStmt_put s k
  rw [hput s ⟨.refl _,rfl⟩ rfl]
  rfl

/-- The first statement of a section moves neither task. -/
theorem readerEnter_pcs (h : readerEnter s=some (t,k)) : t.pcs=s.pcs := by
  unfold readerEnter at h
  split at h
  · cases h
    rfl
  · cases h
    rfl
  · cases h

/-- The first statement of a section moves neither task. -/
theorem writerEnter_pcs (h : writerEnter s=some (t,k)) : t.pcs=s.pcs := by
  unfold writerEnter at h
  split at h
  · cases h
    rfl
  · cases h
    rfl
  · cases h

/-- Every step by statements keeps tasks with open sections where they are. -/
theorem Seated.step {l : Label Act Task} (hi : Seated f) (hs : stmtStep opts f l=some f') :
    Seated f' := by
  cases fine_iff.mp hs with
  | @act a t hfree hstep =>
    -- the step is none of a task with an open section, so that task stays
    refine ⟨fun k hk => ?_,fun k hk => ?_⟩
    · have hpc : t.rpc=f.base.rpc := by
        cases a with
        | reader io => cases (hfree .reader rfl).1.symm.trans hk
        | writer io => exact (writerStep_cases hstep).rpc
        | signal role => cases hstep; rfl
        | relay => cases hstep; rfl
      exact (congrArg RPc.holds hpc).trans (hi.reader k hk)
    · have hpc : t.wpc=f.base.wpc := by
        cases a with
        | reader io => exact (readerStep_cases hstep).wpc
        | writer io => cases (hfree .writer rfl).1.symm.trans hk
        | signal role => cases hstep; rfl
        | relay => cases hstep; rfl
      exact (congrArg WPc.holds hpc).trans (hi.writer k hk)
  | @enter i t k hn he =>
    cases i with
    | reader =>
      have hp := readerEnter_pcs he
      refine ⟨fun _ _ => ?_,fun k' hk => ?_⟩
      · exact (congrArg (fun p : RPc×WPc => p.1.holds) hp).trans (readerEnter_frame he).1
      · rw [f.after_other (by decide)] at hk
        exact (congrArg (fun p : RPc×WPc => p.2.holds) hp).trans (hi.writer k' hk)
    | writer =>
      have hp := writerEnter_pcs he
      refine ⟨fun k' hk => ?_,fun _ _ => ?_⟩
      · rw [f.after_other (by decide)] at hk
        exact (congrArg (fun p : RPc×WPc => p.1.holds) hp).trans (hi.reader k' hk)
      · exact (congrArg (fun p : RPc×WPc => p.2.holds) hp).trans (writerEnter_frame he).1
  | @stmt i k hk =>
    cases i with
    | reader =>
      refine ⟨fun k' hk' => ?_,fun k' hk' => ?_⟩
      · rw [f.after_self] at hk'
        exact (congrArg RPc.holds (readerStmt_rpc hk')).trans (hi.reader k hk)
      · rw [f.after_other (by decide)] at hk'
        exact (congrArg WPc.holds (readerStmt_wpc f.base k)).trans (hi.writer k' hk')
    | writer =>
      refine ⟨fun k' hk' => ?_,fun k' hk' => ?_⟩
      · rw [f.after_other (by decide)] at hk'
        exact (congrArg RPc.holds (writerStmt_rpc f.base k)).trans (hi.reader k' hk')
      · rw [f.after_self] at hk'
        exact (congrArg WPc.holds (writerStmt_wpc hk')).trans (hi.writer k hk)

/-- Tasks with open sections are where they began them, in every run. -/
theorem Seated.run {okf : Mid Sys Task Sec → Label Act Task → Prop}
    (h : Run (stmtStep opts) okf (Mid.init buf) f) : Seated f :=
  h.invariant ⟨fun _ => by rintro ⟨⟩,fun _ => by rintro ⟨⟩⟩ fun _ _ _ hi _ hs => hi.step hs

/-- With both tasks outside the mutex no section is open. -/
theorem Seated.outside (hi : Seated f) (hr : f.base.rpc.holds=false)
    (hw : f.base.wpc.holds=false) (i : Task) : f.inside i=none := by
  refine Option.eq_none_iff_forall_ne_some.mpr fun k hk => ?_
  cases i with
  | reader => exact Bool.false_ne_true (hr.symm.trans (hi.reader k hk))
  | writer => exact Bool.false_ne_true (hw.symm.trans (hi.writer k hk))

/-- What a section of the reading task does to the stored grants. -/
theorem readerRest_grants (s : Sys) (k : Sec) :
    (readerRest s k).shm.xrsiz=s.shm.xrsiz ∧
      ((readerRest s k).shm.xwsiz=s.shm.xwsiz ∨ (readerRest s k).rpc=.post) := by
  cases k with
  | can p =>
    unfold readerRest
    dsimp only
    split_ifs <;> exact ⟨rfl,.inl rfl⟩
  | unlock siz => cases siz <;> exact ⟨rfl,.inl rfl⟩
  | test =>
    unfold readerRest
    dsimp only
    split_ifs
    · exact ⟨rfl,.inl rfl⟩
    · exact ⟨rfl,.inr rfl⟩
    · exact ⟨rfl,.inl rfl⟩
  | offer p =>
    unfold readerRest
    dsimp only
    split_ifs
    · exact ⟨rfl,.inl rfl⟩
    · exact ⟨rfl,.inr rfl⟩
  | clear siz => exact ⟨rfl,.inr rfl⟩
  | store siz => exact ⟨rfl,.inr rfl⟩
  | _ => exact ⟨rfl,.inl rfl⟩

/-- What a section of the writing task does to the stored grants. -/
theorem writerRest_grants (s : Sys) (k : Sec) :
    (writerRest s k).shm.xwsiz=s.shm.xwsiz ∧
      ((writerRest s k).shm.xrsiz=s.shm.xrsiz ∨ (writerRest s k).wpc=.post) := by
  cases k with
  | can p =>
    unfold writerRest
    dsimp only
    split_ifs <;> exact ⟨rfl,.inl rfl⟩
  | unlock siz => cases siz <;> exact ⟨rfl,.inl rfl⟩
  | test =>
    unfold writerRest
    dsimp only
    split_ifs
    · exact ⟨rfl,.inl rfl⟩
    · exact ⟨rfl,.inr rfl⟩
    · exact ⟨rfl,.inl rfl⟩
  | offer p =>
    unfold writerRest
    dsimp only
    split_ifs
    · exact ⟨rfl,.inl rfl⟩
    · exact ⟨rfl,.inr rfl⟩
  | clear siz => exact ⟨rfl,.inr rfl⟩
  | store siz => exact ⟨rfl,.inr rfl⟩
  | _ => exact ⟨rfl,.inl rfl⟩

/-- The end of the open section, as far as a task outside of it can tell. -/
structure Outlook (opts : OptionsS) (f : Mid Sys Task Sec) : Prop where
  /-- A reading task outside its sections is where it is. -/
  rpc : f.base.rpc.holds=false → ((sections opts).whole f).rpc=f.base.rpc
  /-- A writing task outside its sections is where it is. -/
  wpc : f.base.wpc.holds=false → ((sections opts).whole f).wpc=f.base.wpc
  /-- A reading task at the use of a grant finds it stored. -/
  xrsiz : f.base.rpc=.take → ((sections opts).whole f).shm.xrsiz=f.base.shm.xrsiz
  /-- A writing task at the use of a grant finds it stored. -/
  xwsiz : f.base.wpc=.take → ((sections opts).whole f).shm.xwsiz=f.base.shm.xwsiz

/-- In every run the end of the open section looks the same to the other task. -/
theorem outlook (h : Reach (stmtStep opts) (Mid.init buf) f) : Outlook opts f := by
  have hb := between h
  have hseat := Seated.run h
  rcases hb.open_or with ⟨i,k,hk,hh,_⟩|hc
  · have hw := (whole_open hh hk).1
    have hreach := hb.reached
    cases i with
    | reader =>
      rw [finish_reader] at hw
      rw [hw] at hreach
      have hin := hseat.reader k hk
      obtain ⟨hwpc,_⟩ := readerRest_frame f.base k
      obtain ⟨hxr,hxw⟩ := readerRest_grants f.base k
      refine ⟨fun ho => absurd (ho.symm.trans hin) Bool.false_ne_true,fun _ => ?_,fun _ => ?_,
        fun ht => ?_⟩
      · rw [hw,hwpc]
      · rw [hw,hxr]
      · rw [hw]
        exact hxw.resolve_right fun hp => (not_taking hreach).2 hp (hwpc.trans ht)
    | writer =>
      rw [finish_writer] at hw
      rw [hw] at hreach
      have hin := hseat.writer k hk
      obtain ⟨hrpc,_⟩ := writerRest_frame f.base k
      obtain ⟨hxw,hxr⟩ := writerRest_grants f.base k
      refine ⟨fun _ => ?_,fun ho => absurd (ho.symm.trans hin) Bool.false_ne_true,fun ht => ?_,
        fun _ => ?_⟩
      · rw [hw,hrpc]
      · rw [hw]
        exact hxr.resolve_right fun hp => (not_taking hreach).1 hp (hrpc.trans ht)
      · rw [hw,hxw]
  · have hw := (whole_closed (S:=sections opts) hc).1
    exact ⟨fun _ => by rw [hw],fun _ => by rw [hw],fun _ => by rw [hw],fun _ => by rw [hw]⟩

/-- The two parts of a mutex section are atomic: from the publishing of what was moved
to the decision for the other task and the grant stored for it, and from the loop
test to `Vm`. The `Vb` of a hand-over lies between them, and is a step of its own.
Made statement by statement, beside every step of the other task outside its
sections, of the signal handlers and of the third party, the parts exclude each
other; what happens beside an open part can be taken to happen after it, so that
the state at its end is one that is reached with parts as single steps; no part
can be kept from its end; and the states between the parts are the same either
way. -/
theorem sections_atomic (opts : OptionsS) (buf : BufS) :
    (∀ f,Reach (stmtStep opts) (Mid.init buf) f →
      (∀ i k,f.inside i=some k → f.base.held=some i) ∧
      Reach (step opts) (Sys.init buf) ((sections opts).whole f) ∧
      ((sections opts).whole f).tr=f.base.tr ∧
      Reach (stmtStep opts) f (.outside ((sections opts).whole f))) ∧
    ∀ s,Reach (stmtStep opts) (Mid.init buf) (.outside s) ↔ Reach (step opts) (Sys.init buf) s := by
  have hA : (sections opts).Atomic anyStep (Sys.init buf) :=
    atomic opts buf fun _ _ _ _ _ => trivial
  have hiff := fun s => hA.run_iff (s:=s) (visible opts buf)
  refine ⟨fun f h => ?_,fun s => ⟨fun h => (hiff s).mp (run_allowed h),fun h =>
    ((hiff s).mpr h).reach⟩⟩
  have hb := between h
  exact ⟨hb.exclusive,hb.reached,congrArg Prod.fst (whole_kept opts f),(hb.finishes hA).reach⟩

/-- What is fed depends on what was read. -/
theorem feeds_congr {bytes : ℕ} (s s' : Sys) (a : Act) (ht : s'.tr=s.tr) (h : feeds bytes s a) :
    feeds bytes s' a := by
  unfold feeds at h ⊢
  split
  · rw [ht]
    exact h
  · exact h
  · trivial

/-- No section has more statements after its next one than this. -/
theorem Sec.left_lt (k : Sec) : k.left<6 := by
  cases k with
  | can p => cases p <;> exact Nat.le_of_ble_eq_true rfl
  | offer p => cases p <;> exact Nat.le_of_ble_eq_true rfl
  | _ => exact Nat.le_of_ble_eq_true rfl

/-- The two tasks come to an end by statements. Fed by an input of at most
`bytes` bytes and an output that accepts something of every write, they go from
one statement to the next at most `7*(28*bytes+31)` times under every
interleaving, at every instant before both have ended one of them can, whoever
is in a section, and both end in every run that does not rest for ever. -/
theorem statements_end (cfg : Config) (bytes : ℕ) :
    (∀ n f,CountedRun (stmtStep cfg.opts) ((sections cfg.opts).allowed (feeds bytes))
      (Sections.System.shown Sys.pcs) (Mid.init cfg.buf) n f → n≤7*(28*bytes+31)) ∧
    (∀ f,Run (stmtStep cfg.opts) ((sections cfg.opts).allowed (feeds bytes))
      (Mid.init cfg.buf) f → ¬f.base.Over →
      ∃ l f',(sections cfg.opts).allowed (feeds bytes) f l ∧ stmtStep cfg.opts f l=some f' ∧
        Sections.System.shown Sys.pcs f'≠Sections.System.shown Sys.pcs f) ∧
    ∀ g,Endless (stmtStep cfg.opts) ((sections cfg.opts).allowed (feeds bytes))
      (Mid.init cfg.buf) g →
      (∀ i,¬(g i).base.Over →
        ∃ j≥i,Sections.System.shown Sys.pcs (g (j+1))≠Sections.System.shown Sys.pcs (g j)) →
      ∃ i,(g i).base.Over := by
  have hA : (sections cfg.opts).Atomic (feeds bytes) (Sys.init cfg.buf) :=
    atomic cfg.opts cfg.buf feeds_congr
  have hv : (sections cfg.opts).Visible (feeds bytes) (Sys.init cfg.buf) Sys.pcs :=
    visible cfg.opts cfg.buf
  have hr := hA.ranked hv (ranked cfg bytes) Sec.left_lt
  refine ⟨fun n f h => ?_,fun f h ho => ?_,fun g hg hfair => ?_⟩
  · have hb := h.bounded hr
    have hwhole := whole_closed (S:=sections cfg.opts) (f:=Mid.init cfg.buf) fun _ => rfl
    rw [hwhole.1,hwhole.2,show (Mid.init cfg.buf).base=Sys.init cfg.buf from rfl,init_rank] at hb
    omega
  · have hb := Between.run hA hv h
    refine hb.goes_on hA fun hc => ?_
    have hreach := hb.reached
    rw [(whole_closed hc).1] at hreach
    exact moves_on cfg hreach ho bytes
  · exact hg.reaches (P:=fun f => f.base.Over) hr hfair

/-- The bytes that were published and not yet released. -/
def unread (t : Trace) : List Crc.Byte := (t.inp.take t.cin).drop t.cout

/-- The area of a write call in progress: its pointer, the number of bytes of the stream
in it, and that of the padding behind them. -/
def WPc.area : WPc → Option (Ptr×ℕ×ℕ)
  | .writing p siz => some (p,siz,0)
  | .epi (.writing p siz pad) => some (p,siz,pad)
  | _ => none

/-- The memory of the buffer is as the writing side needs it. -/
structure Intact (opts : OptionsS) (buf : BufS) (t : Trace) (w : WPc) : Prop where
  /-- The ring holds the unread bytes. -/
  ring : RingWindow.window buf.size buf.did (fill buf) buf.ptr=unread t
  /-- The area of a write call holds the first of them and its padding. -/
  area : ∀ p siz pad,w.area=some (p,siz,pad) → siz≤fill buf ∧
    loadAt buf p (siz+pad)=(unread t).take siz++List.replicate pad 0
  /-- Padding follows the last of them. -/
  padding : ∀ p siz pad,w.area=some (p,siz,pad) → 0<pad →
    siz=fill buf ∧ siz+pad≤opts.wblk ∧ opts.strict=true

/-- A task with a write call in progress is in no section, and the stream knows the
area. -/
theorem WPc.area_phase {w : WPc} {p : Ptr} {siz pad : ℕ} (h : w.area=some (p,siz,pad))
    (swait : Bool) (xwsiz : ℕ) : w.phase swait xwsiz=.fetched p siz pad ∧ w.holds=false := by
  cases w with
  | writing q n =>
    cases h
    exact ⟨rfl,rfl⟩
  | epi q =>
    cases q with
    | writing q n z =>
      cases h
      exact ⟨rfl,rfl⟩
    | _ => cases h
  | _ => cases h

/-- The stall flags say nothing about the stream. -/
theorem unstalled {rp : RPhase} {wp : WPhase} {fl : Flow} (h : StreamInv opts buf fl rp wp) :
    StreamInv opts (stalls buf false false) fl rp wp :=
  have hw : WriterAt opts (stalls buf false false) fl rp wp :=
    h.writer.readSide .refl buf.fastr false false buf.allin buf.rcrc
  {h with
    ok := {h.ok with
      rstallOk := fun hst => absurd hst Bool.false_ne_true
      wstallOk := fun hst => absurd hst Bool.false_ne_true}
    writer := hw}

/-- Where the stream is as it should be, so is the memory. -/
theorem Intact.of_stream {t : Trace} {w : WPc} {rp : RPhase} {wp : WPhase}
    (h : StreamInv opts (stalls buf false false) (flow t) rp wp)
    (hw : ∀ p siz pad,w.area=some (p,siz,pad) → wp=.fetched p siz pad) :
    Intact opts buf t w := by
  have hoff : ∀ p siz pad,w.area=some (p,siz,pad) → p=writePtr (stalls buf false false) ∧
      Offered opts (stalls buf false false) ((flow t).sent.drop (flow t).cout) rp siz pad := by
    intro p siz pad ha
    have hat := h.writer
    rw [hw p siz pad ha] at hat
    exact hat.2
  refine ⟨h.ring,fun p siz pad ha => ?_,fun p siz pad ha hpos => ?_⟩
  · obtain ⟨rfl,ho⟩ := hoff p siz pad ha
    exact ⟨ho.le,ho.bytes⟩
  · obtain ⟨_,ho⟩ := hoff p siz pad ha
    have hp := ho.pad hpos
    exact ⟨hp.last,ho.block,hp.strict⟩

/-- What holds of the memory at every instant of every interleaving by statements, inside
a section of the other task as well. The unread bytes are in the ring, and the area of a
write call in progress, also one of the epilogue, holds the first of them and then its
padding; whatever a read call in progress stores at its pointer, within what it was
offered, leaves it so. A task picking up a grant finds one that fits. What was written is
what was read, in order, and padding only after its end; and two tasks that have ended
with an empty log have delivered everything. -/
theorem statements_deliver (cfg : Config) (hb : cfg.opts.rline=false) {f : Mid Sys Task Sec}
    (h : Reach (stmtStep cfg.opts) (Mid.init cfg.buf) f) :
    Intact cfg.opts f.base.shm.buf f.base.tr f.base.wpc ∧
    (∀ p siz,f.base.rpc=.reading p siz → p=readPtr f.base.shm.buf ∧ ∀ i bs,i+bs.length ≤ siz →
      Intact cfg.opts (storeAt f.base.shm.buf ⟨p.area,p.off+i⟩ bs) f.base.tr f.base.wpc) ∧
    (f.base.rpc=.take → 0<f.base.shm.xrsiz ∧
      f.base.shm.xrsiz<f.base.shm.buf.size-fill f.base.shm.buf) ∧
    (f.base.wpc=.take → 0<f.base.shm.xwsiz ∧ f.base.shm.xwsiz≤fill f.base.shm.buf) ∧
    (∃ n z,f.base.tr.out=f.base.tr.inp.take n++List.replicate z 0 ∧ n≤f.base.tr.cin ∧
      (0<z → n=f.base.tr.inp.length ∧ z<cfg.opts.wblk ∧ cfg.opts.strict=true)) ∧
    (f.base.rpc=.ended → f.base.wpc=.ended → reaper f.base.shm=0 →
      Complete cfg.opts f.base.tr) := by
  have hbt := between h
  have hout := outlook h
  have hkept := whole_kept cfg.opts f
  have htr : ((sections cfg.opts).whole f).tr=f.base.tr := congrArg Prod.fst hkept
  have hbuf : stalls ((sections cfg.opts).whole f).shm.buf false false=
      stalls f.base.shm.buf false false := congrArg Prod.snd hkept
  have hsize : ((sections cfg.opts).whole f).shm.buf.size=f.base.shm.buf.size :=
    congrArg (fun x : Trace×BufS => x.2.size) hkept
  have hfill : fill ((sections cfg.opts).whole f).shm.buf=fill f.base.shm.buf :=
    congrArg (fun x : Trace×BufS => fill x.2) hkept
  obtain ⟨hcin,hst⟩ := view_data cfg hb hbt.reached
  have hi : DataInv cfg.opts ((sections cfg.opts).whole f).view := ⟨hcin,hst⟩
  -- but for the stall flags the open section leaves the stream as it is
  have hnow := unstalled hst
  rw [hbuf,htr] at hnow
  have harea : ∀ p siz pad,f.base.wpc.area=some (p,siz,pad) →
      ((sections cfg.opts).whole f).wpc.phase ((sections cfg.opts).whole f).shm.swait
        ((sections cfg.opts).whole f).shm.xwsiz=.fetched p siz pad := by
    intro p siz pad ha
    rw [hout.wpc (WPc.area_phase ha false 0).2]
    exact (WPc.area_phase ha _ _).1
  refine ⟨.of_stream hnow harea,fun p siz hpc => ?_,fun hpc => ?_,fun hpc => ?_,?_,
    fun hr hw hz => ?_⟩
  · rw [hout.rpc (by rw [hpc]; rfl),hpc] at hnow
    refine ⟨hnow.reader.2.2.1,fun i bs hle => ?_⟩
    have hstored := hnow.stored hle
    rw [storeAt_stalls] at hstored
    exact .of_stream hstored harea
  · have hw := hout.rpc (by rw [hpc]; rfl)
    rw [hw,hpc,hout.xrsiz hpc] at hst
    obtain ⟨_,hpos,_,hlt⟩ := hst.reader
    rw [hfill,hsize] at hlt
    exact ⟨hpos,by omega⟩
  · have hw := hout.wpc (by rw [hpc]; rfl)
    rw [hw,hpc,hout.xwsiz hpc] at hst
    obtain ⟨_,hpos,_,hle⟩ := hst.writer
    rw [hfill] at hle
    exact ⟨hpos,hle⟩
  · obtain ⟨n,z,ho,hn,hz⟩ := hi.output
    have hview : ((sections cfg.opts).whole f).view.tr=f.base.tr := htr
    rw [hview] at ho hn hz
    exact ⟨n,z,ho,hn,fun hp => (hz hp).2⟩
  · have hc := (Seated.run h).outside (by rw [hr]; rfl) (by rw [hw]; rfl)
    have hreach := hbt.reached
    rw [(whole_closed hc).1] at hreach
    exact two_complete cfg hb hreach hr hw (not_logged hz)

/-- Two bytes being written, while the reading task is inside the section in
which it published the third. -/
theorem statements_deliver_inside :
    ∃ f,Reach (stmtStep (small false false).opts) (Mid.init (small false false).buf) f ∧
      f.inside .reader=some .test ∧ f.base.wpc=.writing (ringPtr 0) 2 ∧
      2≤fill f.base.shm.buf ∧ loadAt f.base.shm.buf (ringPtr 0) 2=[1,2] := by
  obtain ⟨f,hf,he⟩ := exec_reach
    (f:=fun f : Mid Sys Task Sec => (f.inside .reader,f.base.wpc,unread f.base.tr)) (by rfl :
    (exec (stmtStep (small false false).opts) (Mid.init (small false false).buf)
      [.act (.reader (.opened true)),.act (.reader .tau),.enter .reader,.stmt .reader,
       .stmt .reader,.stmt .reader,.act (.reader .tau),.act (.reader (.data [1,2])),
       .act (.reader .tau),.act (.reader .tau),.enter .reader,.stmt .reader,.enter .reader,
       .stmt .reader,.stmt .reader,.stmt .reader,.act (.writer (.opened true)),
       .act (.writer .tau),.enter .writer,.stmt .writer,.stmt .writer,.stmt .writer,
       .act (.writer .tau),.act (.reader .tau),.act (.reader (.data [3])),.act (.reader .tau),
       .act (.reader .tau),.enter .reader]).map
        (fun f : Mid Sys Task Sec => (f.inside .reader,f.base.wpc,unread f.base.tr))=
      some (some .test,.writing (ringPtr 0) 2,[1,2,3]))
  have hin := congrArg Prod.fst he
  have hwpc : f.base.wpc=.writing (ringPtr 0) 2 := congrArg (fun x => x.2.1) he
  have hunread : unread f.base.tr=[1,2,3] := congrArg (fun x => x.2.2) he
  have harea : f.base.wpc.area=some (ringPtr 0,2,0) := congrArg WPc.area hwpc
  obtain ⟨hle,hload⟩ :=
    (statements_deliver (small false false) rfl hf).1.area (ringPtr 0) 2 0 harea
  rw [hunread] at hload
  exact ⟨f,hf,hin,hwpc,hle,hload⟩

end Yancat.TwoTask
