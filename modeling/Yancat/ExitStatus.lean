import Yancat.SingleTaskFlags
import Yancat.TwoTaskDelivery

/-!
# The exit status

Every way out of either driver that is not a complete transfer leaves a log
entry behind, and a log entry makes the verdict nonzero.
-/

namespace Yancat.ExitStatus

open Buffer Setup Shared Transition FailureFlags ByteStream SingleTask TwoTask

/-- The input was read to its end without a failure, and delivered. -/
structure Complete (opts : OptionsS) (t : Trace) : Prop where
  /-- A read returned zero. -/
  eof : t.eof=true
  /-- No read failed for good. -/
  rfail : t.rfail=false
  /-- Every byte read was accepted in order. -/
  delivered : Delivered opts t

/-- A zero verdict means that nothing was logged. -/
theorem not_logged {g : ShrS} (h : reaper g=0) : ¬Logged g := by
  rintro ⟨i,hi,hl⟩
  exact Bool.false_ne_true ((reaper_zero h hi).symm.trans hl)

/-- A single process that has ended without a log entry is complete. -/
theorem single_complete (cfg : Config) (hb : cfg.opts.rline=false) {s : SSys}
    (h : Reach (SingleTask.step cfg.opts) (SSys.init cfg.buf) s) (hpc : s.pc=.ended)
    (hl : ¬Logged s.shm) : Complete cfg.opts s.tr := by
  obtain ⟨_,_,hrf,hwf,hk,_⟩ := SingleTask.FlagInv.run h
  have hd := (DrainInv.run cfg h).drains
  have hst := (SingleTask.view_data cfg hb h).2
  rw [hpc] at hrf hwf hk hd hst
  have hw : s.tr.wfail=false :=
    Bool.eq_false_of_not_eq_true fun hw => (hwf hw).elim hl Bool.false_ne_true
  exact {
    eof := hk.resolve_right fun hn => hn.elim hl Bool.false_ne_true
    rfail := Bool.eq_false_of_not_eq_true fun hr => (hrf hr).elim hl Bool.false_ne_true
    delivered := StreamInv.delivers hst (hd hw)}

/-- Two tasks that have ended without a log entry are complete. -/
theorem two_complete (cfg : Config) (hb : cfg.opts.rline=false) {s : Sys}
    (h : Reach (TwoTask.step cfg.opts) (Sys.init cfg.buf) s) (hr : s.rpc=.ended)
    (hw : s.wpc=.ended) (hl : ¬Logged s.shm) : Complete cfg.opts s.tr := by
  have hf := TwoTask.FlagInv.run h
  have hrd := hf.reader
  have hrf := hf.rfail
  have hd := WDrains.run cfg h
  have hst := (TwoTask.view_data cfg hb h).2
  rw [hr] at hrd hrf hst
  rw [hw] at hd hst
  have ha : ¬s.shm.abrt=true := fun ha => hl (hf.abrt ha)
  have hz : fill s.shm.buf=0 := (hd.resolve_left ha).resolve_left fun hn => hl hn.2
  exact {
    eof := hrd.2.resolve_left ha
    rfail := Bool.eq_false_of_not_eq_true fun hn => (hrf hn).elim hl nofun
    delivered := StreamInv.delivers hst hz}

/-- An exit status of zero is honest, in every mode and whatever fails or is
signalled on the way: the input was read to its end, no read failed for good,
and every byte read was accepted by the output in order, followed by padding
only. -/
theorem exit_status_honest (cfg : Config) (hb : cfg.opts.rline=false) :
    (∀ s,Reach (SingleTask.step cfg.opts) (SSys.init cfg.buf) s → s.pc=.ended →
      reaper s.shm=0 → Complete cfg.opts s.tr) ∧
    ∀ s,Reach (TwoTask.step cfg.opts) (Sys.init cfg.buf) s → s.rpc=.ended → s.wpc=.ended →
      reaper s.shm=0 → Complete cfg.opts s.tr :=
  ⟨fun _ h hpc hz => single_complete cfg hb h hpc (not_logged hz),
    fun _ h hr hw hz => two_complete cfg hb h hr hw (not_logged hz)⟩

/-- Three bytes between two tasks, padded. -/
theorem exit_status_honest_three :
    ∃ s,Reach (TwoTask.step (small false true).opts) (Sys.init (small false true).buf) s ∧
      reaper s.shm=0 ∧ Complete (small false true).opts s.tr := by
  obtain ⟨s,hs,hf⟩ := exec_reach (f:=fun s : Sys => (s.rpc,s.wpc,reaper s.shm)) (by rfl :
    (exec (TwoTask.step (small false true).opts) (Sys.init (small false true).buf)
      ([.opened true,.tau,.tau,.tau,.data [1,2],.tau,.tau,.tau,.tau,.tau,.data [3],.tau,.tau,.tau,
        .tau,.tau,.eof,.tau,.tau].map .reader++
       [.opened true,.tau,.tau,.tau,.tau,.tau,.tau,.tau,.wrote 2,.tau,.tau,.tau,.tau,.wrote 2,
        .tau,.tau,.tau].map .writer)).map (fun s : Sys => (s.rpc,s.wpc,reaper s.shm))=
      some (.ended,.ended,0))
  have hr := congrArg Prod.fst hf
  have hw := congrArg (fun x => x.2.1) hf
  have hz := congrArg (fun x => x.2.2) hf
  exact ⟨s,hs,hz,(exit_status_honest (small false true) rfl).2 s hs hr hw hz⟩

end Yancat.ExitStatus
