import Yancat.Requests
import Yancat.SingleTaskProgress
import Yancat.TwoTaskEnds

/-!
# Reblocking

The sequence of write requests of a run in which nothing fails and every write
accepts all it was offered depends on the input alone: it is the input cut into
blocks. The schedule, the read sizes and the side that decided on a grant do
not matter. Such runs over a finite input do come to an end.
-/

namespace Yancat.Reblocking

open Buffer Setup Shared Transition ByteStream Blocks SingleTask TwoTask

/-- An undisturbed step of the single process in which a write accepts all it
was offered. -/
def singleSmooth (s : SSys) (a : SingleTask.Act) : Prop :=
  SingleTask.undisturbed s a ∧ SingleTask.fullWrites s a

instance singleSmooth.decidable : ∀ s a,Decidable (singleSmooth s a)
  | s,.task io => inferInstanceAs (Decidable (io.calm=true ∧ s.pc.full io=true))
  | _,.signal => inferInstanceAs (Decidable (False ∧ True))

/-- An undisturbed step of the two tasks in which a write accepts all it was
offered. -/
def twoSmooth (s : Sys) (a : TwoTask.Act) : Prop :=
  TwoTask.undisturbed s a ∧ TwoTask.fullWrites s a

instance twoSmooth.decidable : ∀ s a,Decidable (twoSmooth s a)
  | _,.reader io => inferInstanceAs (Decidable (io.calm=true ∧ True))
  | s,.writer io => inferInstanceAs (Decidable (io.calm=true ∧ s.wpc.full io=true))
  | _,.signal _ => inferInstanceAs (Decidable (False ∧ True))
  | _,.relay => inferInstanceAs (Decidable (False ∧ True))

/-- The requests of a single process that has ended. -/
theorem single_blocks (cfg : Config) (hb : cfg.opts.rline=false) (hw : cfg.opts.wline=false)
    {s : SSys} (h : Run (SingleTask.step cfg.opts) singleSmooth (SSys.init cfg.buf) s)
    (hpc : s.pc=.ended) :
    s.tr.reqs=blocks cfg.opts.wblk (padByte cfg.opts) s.tr.inp := by
  have hm : Moves cfg.opts true (.init cfg.buf) s.view :=
    SingleTask.view_moves (fun _ _ _ ha => ha.2) h
  have hwf := wfail_run (fun s a ha => SingleTask.undisturbed_onlyReadsFail s a ha.1) h
  have hd := (DrainInv.run cfg h).drains
  rw [hpc] at hd
  exact (Reblocked.moves cfg hb hw hm).all (DataInv.moves cfg (.inl hb) hm)
    (by unfold SSys.view; rw [hpc]; rfl) (by unfold SSys.view; rw [hpc]; rfl) (hd hwf)
    cfg.parsed.wblk_pos

/-- The requests of two tasks that have ended. -/
theorem two_blocks (cfg : Config) (hb : cfg.opts.rline=false) (hw : cfg.opts.wline=false)
    {s : Sys} (h : Run (TwoTask.step cfg.opts) twoSmooth (Sys.init cfg.buf) s)
    (hr : s.rpc=.ended) (hwe : s.wpc=.ended) :
    s.tr.reqs=blocks cfg.opts.wblk (padByte cfg.opts) s.tr.inp := by
  have hm : Moves cfg.opts true (.init cfg.buf) s.view :=
    TwoTask.view_moves (fun _ _ _ ha => ha.2) h
  have ha := undisturbed_run (fun _ _ ha => ha.1) h
  have hc := CleanInv.run (fun s a ha => TwoTask.undisturbed_onlyReadsFail s a ha.1) h
  have hd := WDrains.run cfg h
  rw [hwe] at hd
  have hz : fill s.shm.buf=0 := by
    rcases hd with hd|hd|hd
    · exact absurd (ha.symm.trans hd) Bool.false_ne_true
    · exact absurd (hc.wfail.symm.trans hd.1) Bool.false_ne_true
    · exact hd
  exact (Reblocked.moves cfg hb hw hm).all (DataInv.moves cfg (.inl hb) hm)
    (by unfold Sys.view; rw [hr]; rfl) (by unfold Sys.view; rw [hwe]; rfl) hz
    cfg.parsed.wblk_pos

/-- A smooth step of the single process over a bounded input. -/
def singleFed (bytes : ℕ) (s : SSys) (a : SingleTask.Act) : Prop :=
  singleSmooth s a ∧ SingleTask.feeds bytes s a

/-- A smooth step of the two tasks over a bounded input. -/
def twoFed (bytes : ℕ) (s : Sys) (a : TwoTask.Act) : Prop :=
  twoSmooth s a ∧ TwoTask.feeds bytes s a

/-- Smooth runs of the single process over a bounded input come to an end. -/
theorem single_ends (cfg : Config) (bytes : ℕ) :
    Ends (SingleTask.step cfg.opts) (singleFed bytes) SSys.pc (SSys.init cfg.buf)
      fun s => s.pc=.ended := by
  refine ((SingleTask.ranked cfg bytes).mono fun s a ha => ha.2).ends fun s h hpc => ?_
  have hm : Moves cfg.opts true (.init cfg.buf) s.view :=
    SingleTask.view_moves (fun _ _ _ ha => ha.1.2) h
  obtain ⟨io,t,hc,hf,hn,hs,hne⟩ := step_enabled cfg.opts bytes hpc (asked_pos hm)
  exact ⟨.task io,t,⟨⟨hc,hf⟩,hn⟩,hs,hne⟩

/-- Smooth runs of the two tasks over a bounded input come to an end. -/
theorem two_ends (cfg : Config) (bytes : ℕ) :
    Ends (TwoTask.step cfg.opts) (twoFed bytes) Sys.pcs (Sys.init cfg.buf) Sys.Over := by
  refine ((TwoTask.ranked cfg bytes).mono fun s a ha => ha.2).ends fun s h ho => ?_
  obtain ⟨a,t,hsm,hn,hs,hne⟩ := smooth_on cfg h ho bytes
  exact ⟨a,t,⟨hsm,hn⟩,hs,hne⟩

/-- Reblocking. In every run of either driver in which nothing fails and every
write accepts all it was offered, the requests at the end are the input cut into
blocks, the last one short, or filled up with zeros in strict mode. Such runs
over a finite input come to an end, under every interleaving: they move a bounded
number of times, can always move on and be completed, and end unless they rest
for ever. In strict mode every request of any run is a whole block. -/
theorem reblocking (cfg : Config) (hb : cfg.opts.rline=false) (hw : cfg.opts.wline=false) :
    (∀ s,Run (SingleTask.step cfg.opts) singleSmooth (SSys.init cfg.buf) s → s.pc=.ended →
      s.tr.reqs=blocks cfg.opts.wblk (padByte cfg.opts) s.tr.inp) ∧
    (∀ bytes,Ends (SingleTask.step cfg.opts) (singleFed bytes) SSys.pc (SSys.init cfg.buf)
      fun s => s.pc=.ended) ∧
    (∀ s,Run (TwoTask.step cfg.opts) twoSmooth (Sys.init cfg.buf) s → s.rpc=.ended →
      s.wpc=.ended → s.tr.reqs=blocks cfg.opts.wblk (padByte cfg.opts) s.tr.inp) ∧
    (∀ bytes,Ends (TwoTask.step cfg.opts) (twoFed bytes) Sys.pcs (Sys.init cfg.buf) Sys.Over) ∧
    (cfg.opts.strict=true → ∀ s,Reach (SingleTask.step cfg.opts) (SSys.init cfg.buf) s →
      ∀ r∈s.tr.reqs,r.length=cfg.opts.wblk) ∧
    (cfg.opts.strict=true → ∀ s,Reach (TwoTask.step cfg.opts) (Sys.init cfg.buf) s →
      ∀ r∈s.tr.reqs,r.length=cfg.opts.wblk) := by
  refine ⟨fun s h hpc => single_blocks cfg hb hw h hpc,single_ends cfg,
    fun s h hr hwe => two_blocks cfg hb hw h hr hwe,two_ends cfg,fun hs s h => ?_,
    fun hs s h => ?_⟩
  · exact strict_moves cfg hb hw hs (SingleTask.view_moves (fun hf => by cases hf) h)
  · exact strict_moves cfg hb hw hs (TwoTask.view_moves (fun hf => by cases hf) h)

/-- Three bytes through either driver, padded. -/
theorem reblocking_three :
    (∃ s,Run (SingleTask.step (small false true).opts) singleSmooth
      (SSys.init (small false true).buf) s ∧ s.tr.inp=[1,2,3] ∧ s.tr.reqs=[[1,2],[3,0]]) ∧
    ∃ s,Run (TwoTask.step (small false true).opts) twoSmooth
      (Sys.init (small false true).buf) s ∧ s.tr.inp=[1,2,3] ∧ s.tr.reqs=[[1,2],[3,0]] := by
  obtain ⟨s,hr,hf⟩ := execOk_reach (f:=fun s : SSys => (s.pc,s.tr.inp)) (by rfl :
    (execOk (SingleTask.step (small false true).opts) singleSmooth
      (SSys.init (small false true).buf)
      ([.opened true,.opened true,.tau,.tau,.tau,.data [1,2],.tau,.tau,.tau,.tau,.tau,.wrote 2,.tau,
        .tau,.tau,.tau,.tau,.tau,.data [3],.tau,.tau,.tau,.tau,.tau,.tau,.tau,.eof,.tau,.tau,.tau,
        .tau,.wrote 2,.tau,.tau,.tau,.tau].map .task)).map (fun s : SSys => (s.pc,s.tr.inp))=
      some (.ended,[1,2,3]))
  have hpc := congrArg Prod.fst hf
  have hin : s.tr.inp=[1,2,3] := congrArg Prod.snd hf
  have hq := (reblocking (small false true) rfl rfl).1 s hr hpc
  rw [hin] at hq
  refine ⟨⟨s,hr,hin,hq⟩,?_⟩
  -- the writer waits first and is handed its grant by the reader
  obtain ⟨u,hu,hf⟩ := execOk_reach (f:=fun u : Sys => (u.rpc,u.wpc,u.tr.inp)) (by rfl :
    (execOk (TwoTask.step (small false true).opts) twoSmooth (Sys.init (small false true).buf)
      [.writer (.opened true),.writer .tau,.writer .tau,.reader (.opened true),.reader .tau,
       .reader .tau,.reader .tau,.reader (.data [1,2]),.reader .tau,.reader .tau,.reader .tau,
       .reader .tau,.writer .tau,.writer .tau,.writer .tau,.writer .tau,.writer (.wrote 2),
       .writer .tau,.reader .tau,.writer .tau,.writer .tau,.writer .tau,.reader .tau,
       .reader (.data [3]),.reader .tau,.reader .tau,.reader .tau,.reader .tau,.reader .tau,
       .reader .eof,.reader .tau,.reader .tau,.writer .tau,.writer .tau,.writer .tau,.writer .tau,
       .writer .tau,.writer .tau,.writer .tau,.writer (.wrote 2),.writer .tau,.writer .tau,
       .writer .tau]).map (fun u : Sys => (u.rpc,u.wpc,u.tr.inp))=
      some (.ended,.ended,[1,2,3]))
  have hrpc := congrArg Prod.fst hf
  have hwpc : u.wpc=.ended := congrArg (fun x => x.2.1) hf
  have hin : u.tr.inp=[1,2,3] := congrArg (fun x => x.2.2) hf
  have hq := (reblocking (small false true) rfl rfl).2.2.1 u hu hrpc hwpc
  rw [hin] at hq
  exact ⟨u,hu,hin,hq⟩

end Yancat.Reblocking
