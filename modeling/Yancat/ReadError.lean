import Yancat.SingleTaskStream
import Yancat.TwoTaskDelivery

/-!
# Delivery after a failed read

Both drivers stop reading on a read error. The single process then drains its
buffer whatever the read result was. The writing task of the other driver
drains only while `abrt` is clear, and a failed read sets it, so what is in the
buffer when the writing task gets there is dropped.
-/

namespace Yancat.ReadError

open Buffer Setup Shared Transition ByteStream SingleTask TwoTask

/-- A step in which opens and writes succeed, nobody signals, and the writing
task finds `abrt` set only over an empty buffer. -/
def drainedSkips (s : Sys) (a : TwoTask.Act) : Prop :=
  TwoTask.onlyReadsFail s a ∧
    ∀ io,a=.writer io → s.wpc=.chkAbrt → s.shm.abrt=true → s.shm.buf.got=s.shm.buf.did

/-- A closed reader has left. -/
theorem closed_leaving {rpc : RPc} (h : rpc.closed=true) : rpc.leaving=true := by
  rcases RPc.closed_iff.mp h with h|h <;> rw [h] <;> rfl

/-- An ended writing task has left an empty buffer behind a reader that left. -/
def EndsEmpty (s : Sys) : Prop := s.wpc=.ended → s.rpc.leaving=true ∧ fill s.shm.buf=0

variable {opts : OptionsS} {s t : Sys} {io : Io}

/-- The reading task leaves an ended writing task's buffer alone. -/
theorem EndsEmpty.reader_step (hi : EndsEmpty s) (h : RStep s io t) : EndsEmpty t := by
  intro he
  rw [h.wpc] at he
  obtain ⟨hl,hz⟩ := hi he
  obtain ⟨h1,_,h3,_⟩ := h.of_leaving hl
  exact ⟨h1,by rw [h3]; exact hz⟩

/-- The writing task ends over an empty buffer if it skips its epilogue over
one only. -/
theorem EndsEmpty.writer_step (hi : EndsEmpty s) (hok : BufOk s.shm.buf)
    (hf : TwoTask.FlagInv s) (hc : CleanInv s) (hd : WDrains s.shm s.tr s.wpc)
    (hs : s.wpc=.chkAbrt → s.shm.abrt=true → s.shm.buf.got=s.shm.buf.did)
    (h : WStep opts s io t) : EndsEmpty t := by
  have hcw := hc.writer
  have hfw := hf.writer
  intro he
  cases h with
  | released hpc hr =>
    rw [hpc] at hcw
    cases hcw
  | retry hpc hn => exact hi he
  | skip hpc ha => exact ⟨(hc.abrt ha).2,hok.fill_of_eq (hs hpc ha)⟩
  | epiEnd hpc hstep =>
    rw [hpc] at hd hfw
    exact ⟨closed_leaving hfw.2,hstep.draining hok hd rfl⟩
  | errLog hpc =>
    rw [hpc] at hcw
    cases hcw
  | _ => cases he

/-- The writing task ends over an empty buffer in every run in which it skips
its epilogue over one only. -/
theorem EndsEmpty.run (cfg : Config)
    (h : Run (TwoTask.step cfg.opts) drainedSkips (Sys.init cfg.buf) s) : EndsEmpty s := by
  refine h.invariant_of
    (J:=fun s => TwoTask.FlagInv s ∧ StallInv s ∧ CleanInv s ∧ WDrains s.shm s.tr s.wpc)
    (fun _ hr => ⟨TwoTask.FlagInv.run hr,StallInv.run cfg hr,CleanInv.run (fun _ _ ha => ha.1) hr,
      WDrains.run cfg hr⟩) nofun ?_
  rintro s a t ⟨hf,hst,hc,hd⟩ _ hi ha hs
  cases a with
  | reader io => exact hi.reader_step (readerStep_cases hs)
  | writer io => exact hi.writer_step hst.ok hf hc hd (ha.2 io rfl) (writerStep_cases hs)
  | signal role => exact ha.1.elim
  | relay => exact ha.1.elim

/-- What is dropped stays dropped: once the writing task finds `abrt` set over a
buffer that is not empty, nothing moves any more. -/
theorem dropped_run (cfg : Config) {u : Sys}
    (h : Run (TwoTask.step cfg.opts) TwoTask.onlyReadsFail (Sys.init cfg.buf) s)
    (hpc : s.wpc=.chkAbrt) (ha : s.shm.abrt=true)
    (hu : Run (TwoTask.step cfg.opts) TwoTask.onlyReadsFail s u) : u.tr=s.tr := by
  have hkeep : (u.wpc=.chkAbrt ∨ u.wpc=.ended) ∧ u.shm.abrt=true ∧ u.tr=s.tr := by
    refine hu.invariant_of (J:=CleanInv)
      (I:=fun u => (u.wpc=.chkAbrt ∨ u.wpc=.ended) ∧ u.shm.abrt=true ∧ u.tr=s.tr)
      (fun _ hr => CleanInv.run (fun _ _ hn => hn) (h.trans hr)) ⟨.inl hpc,ha,rfl⟩ ?_
    -- the reader has left and the writer can only skip, so neither side moves a byte
    rintro v a w hc _ ⟨hw,hv,ht⟩ hn hs
    cases a with
    | reader io =>
      have hstep := readerStep_cases hs
      obtain ⟨_,h2,_,h4⟩ := hstep.of_leaving (hc.abrt hv).2
      exact ⟨by rw [hstep.wpc]; exact hw,h4.trans hv,h2.trans ht⟩
    | writer io =>
      cases writerStep_cases hs with
      | skip _ _ => exact ⟨.inr rfl,hv,ht⟩
      | enter _ hz => cases hz.symm.trans hv
      | _ hp => rcases hw with hw|hw <;> cases hp.symm.trans hw
    | signal role => exact hn.elim
    | relay => exact hn.elim
  exact hkeep.2.2

/-- A writing task over a buffer that is not empty has not delivered. -/
theorem not_delivered (cfg : Config) (hb : cfg.opts.rline=false)
    (h : Run (TwoTask.step cfg.opts) TwoTask.onlyReadsFail (Sys.init cfg.buf) s)
    (hpc : s.wpc=.chkAbrt) (hne : s.shm.buf.got≠s.shm.buf.did) : ¬Delivered cfg.opts s.tr := by
  obtain ⟨hcin,hst⟩ := TwoTask.view_data cfg hb h
  rw [hpc] at hst
  have hpos : 0<fill s.shm.buf := Nat.pos_of_ne_zero fun hz => hne (hst.ok.fill_zero hz)
  have ho : s.tr.out=(flow s.tr).sent.take s.tr.cout := StreamInv.unpadded hst hpos
  have hcount : (flow s.tr).sent.length=s.tr.cout+fill s.shm.buf := hst.count
  have hsent : (flow s.tr).sent.length ≤ s.tr.inp.length := List.length_take_le' _ _
  rintro ⟨z,hz,_⟩
  have hlen := congrArg List.length (ho.symm.trans hz)
  rw [List.length_take,List.length_append] at hlen
  omega

/-- Delivery after a failed read, all opens and writes succeeding. The single
process delivers all it has read. The two tasks do so in every run in which the
writing task finds `abrt` set only over an empty buffer. A run in which it finds
`abrt` set over any other buffer never delivers all it has read. -/
theorem read_error_delivery (cfg : Config) (hb : cfg.opts.rline=false) :
    (∀ s,Run (SingleTask.step cfg.opts) SingleTask.onlyReadsFail (SSys.init cfg.buf) s →
      s.pc=.ended → Delivered cfg.opts s.tr) ∧
    (∀ s,Run (TwoTask.step cfg.opts) drainedSkips (Sys.init cfg.buf) s → s.rpc=.ended →
      s.wpc=.ended → Delivered cfg.opts s.tr) ∧
    ∀ s,Run (TwoTask.step cfg.opts) TwoTask.onlyReadsFail (Sys.init cfg.buf) s →
      s.wpc=.chkAbrt → s.shm.abrt=true → s.shm.buf.got≠s.shm.buf.did →
      ∀ u,Run (TwoTask.step cfg.opts) TwoTask.onlyReadsFail s u → ¬Delivered cfg.opts u.tr := by
  refine ⟨fun s h hpc => ?_,fun s h hr hw => ?_,fun s h hpc ha hne u hu => ?_⟩
  · have hst := (SingleTask.view_data cfg hb h).2
    have hd := (DrainInv.run cfg h).drains
    rw [hpc] at hst hd
    exact StreamInv.delivers hst (hd (wfail_run (fun _ _ ha => ha) h))
  · have hst := (TwoTask.view_data cfg hb h).2
    have hz := (EndsEmpty.run cfg h hw).2
    rw [hr,hw] at hst
    exact StreamInv.delivers hst hz
  · rw [dropped_run cfg h hpc ha hu]
    exact not_delivered cfg hb h hpc hne

/-- The single process delivers one byte read before a failure. -/
theorem read_error_delivery_one :
    ∃ s,Run (SingleTask.step (small false false).opts) SingleTask.onlyReadsFail
        (SSys.init (small false false).buf) s ∧ s.tr.rfail=true ∧
      Delivered (small false false).opts s.tr := by
  obtain ⟨s,hr,hf⟩ := execOk_reach (f:=fun s : SSys => (s.pc,s.tr.rfail)) (by rfl :
    (execOk (SingleTask.step (small false false).opts) SingleTask.onlyReadsFail
      (SSys.init (small false false).buf)
      ([.opened true,.opened true,.tau,.tau,.tau,.data [1],.tau,.tau,.tau,.tau,.tau,.tau,.tau,
        .rerr 5,.tau,.tau,.tau,.tau,.wrote 1,.tau,.tau,.tau,.tau].map .task)).map
        (fun s : SSys => (s.pc,s.tr.rfail))=some (.ended,true))
  exact ⟨s,hr,congrArg Prod.snd hf,
    (read_error_delivery (small false false) rfl).1 s hr (congrArg Prod.fst hf)⟩

/-- Two tasks that drop two bytes read before a failure: the writing task is
opened late, and finds `abrt` set. -/
theorem read_error_drops : ¬∀ (cfg : Config) (s : Sys),cfg.opts.rline=false →
    Run (TwoTask.step cfg.opts) TwoTask.onlyReadsFail (Sys.init cfg.buf) s → s.rpc=.ended →
    s.wpc=.ended → Delivered cfg.opts s.tr := by
  intro hall
  obtain ⟨s,hr,hf⟩ := execOk_reach (f:=fun s : Sys => (s.rpc,s.wpc,s.tr.inp,s.tr.out)) (by rfl :
    (execOk (TwoTask.step (small false false).opts) TwoTask.onlyReadsFail
      (Sys.init (small false false).buf)
      ([.opened true,.tau,.tau,.tau,.data [1,2],.tau,.tau,.tau,.tau,.tau,.rerr 5,.tau,.tau,.tau,
        .tau].map .reader++
       [.opened true,.tau,.tau,.tau,.tau].map .writer)).map
        (fun s : Sys => (s.rpc,s.wpc,s.tr.inp,s.tr.out))=some (.ended,.ended,[1,2],[]))
  have hrpc := congrArg Prod.fst hf
  have hwpc := congrArg (fun x => x.2.1) hf
  have hin : s.tr.inp=[1,2] := congrArg (fun x => x.2.2.1) hf
  have hout : s.tr.out=[] := congrArg (fun x => x.2.2.2) hf
  obtain ⟨z,hz,_⟩ := hall (small false false) s rfl hr hrpc hwpc
  rw [hin,hout] at hz
  cases hz

end Yancat.ReadError
