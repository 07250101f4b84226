import Yancat.ExitStatus
import Yancat.SingleTaskClosing
import Yancat.TwoTaskClosing

/-!
# Failed flushes and the exit status

Whatever the last `fsync` and `close` of the output report, no statement looks
at it. A failed flush therefore counts only when something else has gone wrong
in the same run.
-/

namespace Yancat.FlushStatus

open Buffer Setup Shared Transition FailureFlags Fdpack Closing ExitStatus
open SingleTask (taskStep_cases)
open TwoTask (readerStep_cases writerStep_cases)
open Options (Dir ModeT)

/-- A failed flush counts: the error log has an entry and the verdict is not
zero. -/
def Counted (g : ShrS) (unflushed : Bool) : Prop := unflushed=true → Logged g ∧ reaper g≠0

/-- A failed flush counts exactly when some log entry is set. -/
theorem counted_iff {g : ShrS} {unflushed : Bool} :
    Counted g unflushed ↔ (unflushed=true → Logged g) :=
  ⟨fun h hu => (h hu).1,fun h hu => ⟨h hu,fun hz => not_logged hz (h hu)⟩⟩

/-- A failed flush that counts does so under raised flags. -/
theorem Counted.mono {g g' : ShrS} {u u' : Bool} (h : Counted g u) (hr : Raised g g')
    (hu : u'=u) : Counted g' u' := by
  rw [hu]
  exact counted_iff.mpr fun hf => (h hf).1.mono hr

/-- A close that reports an error only over a log with an entry keeps failed
flushes counting. -/
theorem Counted.close {g : ShrS} {e e' : Ends} {io : CloseIo} {u : Bool}
    (h : Counted g (e.unflushed || u)) (hs : e.closeStep io=some e')
    (hok : e.reports io=true → Logged g) : Counted g (e'.unflushed || u) := by
  rw [(Ends.closeStep_flags hs).2]
  refine counted_iff.mpr fun hf => ?_
  cases hr : e.reports io with
  | true => exact hok hr
  | false =>
    rw [hr,Bool.or_false] at hf
    exact (h hf).1

/-- A step of the single process in which a call on the output reports an error
only when some log entry is set already. -/
def singleLogged (s : SingleTaskClosing.Sess) : SingleTaskClosing.Act → Prop
  | .close io => s.ends.reports io=true → Logged s.sys.shm
  | _ => True

/-- A step of the two tasks in which a call on the output reports an error only
when some log entry is set already. -/
def twoLogged (s : TwoTaskClosing.Sess) : TwoTaskClosing.Act → Prop
  | .rclose io => s.rends.reports io=true → Logged s.sys.shm
  | .wclose io => s.wends.reports io=true → Logged s.sys.shm
  | _ => True

/-- Failed flushes count in every state of a run of the single process in which
calls on the output report errors only over a log with an entry. -/
theorem single_counted {opts : OptionsS} {buf : BufS} {fdi fdo : FdpackS}
    {s : SingleTaskClosing.Sess}
    (h : Run (SingleTaskClosing.step opts) singleLogged (.init buf fdi fdo) s) :
    Counted s.sys.shm s.ends.unflushed := by
  refine h.invariant (I:=fun s => Counted s.sys.shm s.ends.unflushed) nofun
    fun s a t hi hok hs => ?_
  cases SingleTaskClosing.step_cases hs with
  | opens hb _ hf => exact hi.mono (taskStep_cases hb).raised hf
  | task hb _ => exact hi.mono (taskStep_cases hb).raised rfl
  | @close io ends he =>
    have hc : Counted s.sys.shm (s.ends.unflushed || false) := by
      rw [Bool.or_false]
      exact hi
    have hn := hc.close he hok
    rw [Bool.or_false] at hn
    exact hn
  | signal => exact hi.mono (markStep_raised _ _ _) rfl

/-- Failed flushes count in every state of a run of the two tasks in which calls
on the output report errors only over a log with an entry. -/
theorem two_counted {mode : ModeT} {opts : OptionsS} {buf : BufS} {fdi fdo : FdpackS}
    {s : TwoTaskClosing.Sess}
    (h : Run (TwoTaskClosing.step mode opts) twoLogged (.init buf fdi fdo) s) :
    Counted s.sys.shm s.unflushed := by
  refine h.invariant (I:=fun s => Counted s.sys.shm s.unflushed) nofun
    fun s a t hi hok hs => ?_
  cases TwoTaskClosing.step_cases hs with
  | ropens hb _ hf =>
    exact hi.mono (readerStep_cases hb).raised (congrArg (· || s.wends.unflushed) hf)
  | reader hb _ => exact hi.mono (readerStep_cases hb).raised rfl
  | rclose he => exact Counted.close hi he hok
  | wopens hb _ hf =>
    exact hi.mono (writerStep_cases hb).raised (congrArg (s.rends.unflushed || ·) hf)
  | writer hb _ => exact hi.mono (writerStep_cases hb).raised rfl
  | wclose he =>
    have hc : Counted s.sys.shm (s.wends.unflushed || s.rends.unflushed) := by
      rw [Bool.or_comm]
      exact hi
    have hn := hc.close he hok
    rw [Bool.or_comm] at hn
    exact hn
  | signal => exact hi.mono (markStep_raised _ _ _) rfl
  | relay => exact hi.mono (release_raised rfl) rfl

/-- Failed flushes and the exit status, in every mode and for every pair of
endpoints. A failed flush counts in every state of a run in which `fsync` and
`close` of the output report errors only when some log entry is set already. At
the end of any run a failed flush counts exactly when an open, a read or a write
has failed for good as well or a signal was handled. -/
theorem flush_failure_counted (cfg : Config) (fdi fdo : FdpackS) :
    (∀ s,Run (SingleTaskClosing.step cfg.opts) singleLogged (.init cfg.buf fdi fdo) s →
      Counted s.sys.shm s.ends.unflushed) ∧
    (∀ mode s,Run (TwoTaskClosing.step mode cfg.opts) twoLogged (.init cfg.buf fdi fdo) s →
      Counted s.sys.shm s.unflushed) ∧
    (∀ s,Reach (SingleTaskClosing.step cfg.opts) (.init cfg.buf fdi fdo) s → s.Ended →
      (Counted s.sys.shm s.ends.unflushed ↔
        (s.ends.unflushed=true → SingleTaskClosing.Upset s))) ∧
    ∀ mode s,Reach (TwoTaskClosing.step mode cfg.opts) (.init cfg.buf fdi fdo) s → s.Ended →
      (Counted s.sys.shm s.unflushed ↔ (s.unflushed=true → TwoTaskClosing.Upset s)) := by
  refine ⟨fun s h => single_counted h,fun mode s h => two_counted h,fun s h he => ?_,
    fun mode s h he => ?_⟩
  · rw [counted_iff,SingleTaskClosing.logged_iff h he.1]
  · rw [counted_iff,TwoTaskClosing.logged_iff h he.1 he.2.1]

/-- An endpoint that is a descriptor or a file. -/
def FdOrFile (fd : FdpackS) : Prop := ∀ saddr np waitall,fd.type≠.fdsock saddr np waitall

/-- A file of a side where the output is to be synchronised. -/
def syncedFile (dir : Dir) : FdpackS := ⟨.fdfile ['f'],-1,dir,dir=.out⟩

/-- Such a file is no socket. -/
theorem fdOrFile_syncedFile (dir : Dir) : FdOrFile (syncedFile dir) := nofun

/-- A failed flush under a zero verdict does not count. -/
theorem not_counted {g : ShrS} {u : Bool} (hu : u=true) (hz : reaper g=0) : ¬Counted g u :=
  fun h => (h hu).2 hz

/-- One byte is moved, `fsync` fails for an I/O error, and both files are closed. -/
def brokenDisk : List SingleTaskClosing.Act :=
  [.opens 3,.opens 4]++
  ([.tau,.tau,.tau,.data [1],.tau,.tau,.tau,.tau,.tau,.tau,.tau,.eof,.tau,.tau,.tau,.tau,
    .wrote 1,.tau,.tau,.tau,.tau] : List Io).map .task++
  ([.tau,.fsync (some 5),.close none,.tau,.close none] : List CloseIo).map .close

/-- The close of a side and, in a child process, of two endpoints that are not
open. -/
def closing (own : List CloseIo) (mode : ModeT) : List CloseIo :=
  own++(cleanupFds mode).map fun _ => .tau

/-- Two bytes are moved, and `close` fails for lack of space. -/
def fullDisk (mode : ModeT) : List TwoTaskClosing.Act :=
  [.ropens 3]++
  ([.tau,.tau,.tau,.data [1,2],.tau,.tau,.tau,.tau,.tau,.eof,.tau,.tau] : List Io).map .reader++
  (closing [.tau,.close none] mode).map .rclose++
  [.wopens 4]++
  ([.tau,.tau,.tau,.tau,.tau,.tau,.tau,.wrote 2,.tau,.tau,.tau] : List Io).map .writer++
  (closing [.tau,.fsync none,.close (some 28)] mode).map .wclose

/-- Failed flushes that do not count: all was written, in one process and in
either mode of the two tasks, and then the disk fails. -/
theorem flush_failure_uncounted :
    (¬∀ (cfg : Config) (fdi fdo : FdpackS) (s : SingleTaskClosing.Sess),FdOrFile fdo →
      Reach (SingleTaskClosing.step cfg.opts) (.init cfg.buf fdi fdo) s → s.Ended →
      Counted s.sys.shm s.ends.unflushed) ∧
    ∀ mode,¬∀ (cfg : Config) (fdi fdo : FdpackS) (s : TwoTaskClosing.Sess),FdOrFile fdo →
      Reach (TwoTaskClosing.step mode cfg.opts) (.init cfg.buf fdi fdo) s → s.Ended →
      Counted s.sys.shm s.unflushed := by
  constructor
  · intro hall
    obtain ⟨s,hr,hf⟩ := exec_reach
      (f:=fun s : SingleTaskClosing.Sess =>
        (s.sys.pc,s.ends.todo,s.ends.unflushed,reaper s.sys.shm)) (by rfl :
      (exec (SingleTaskClosing.step (small false false).opts)
        (.init (small false false).buf (syncedFile .inp) (syncedFile .out)) brokenDisk).map
        (fun s => (s.sys.pc,s.ends.todo,s.ends.unflushed,reaper s.sys.shm))=
        some (.ended,[],true,0))
    have hpc := congrArg Prod.fst hf
    have htodo := congrArg (fun x => x.2.1) hf
    have hu := congrArg (fun x => x.2.2.1) hf
    have hz := congrArg (fun x => x.2.2.2) hf
    exact not_counted hu hz (hall (small false false) (syncedFile .inp) (syncedFile .out) s
      (fdOrFile_syncedFile .out) hr ⟨hpc,htodo⟩)
  · intro mode hall
    obtain ⟨s,hr,hf⟩ := exec_reach
      (f:=fun s : TwoTaskClosing.Sess =>
        ((s.sys.rpc,s.sys.wpc,s.rends.todo,s.wends.todo),s.unflushed,reaper s.sys.shm))
      (by cases mode <;> rfl :
      (exec (TwoTaskClosing.step mode (small false false).opts)
        (.init (small false false).buf (syncedFile .inp) (syncedFile .out)) (fullDisk mode)).map
        (fun s => ((s.sys.rpc,s.sys.wpc,s.rends.todo,s.wends.todo),s.unflushed,
          reaper s.sys.shm))=some ((.ended,.ended,[],[]),true,0))
    have hu := congrArg (fun x => x.2.1) hf
    have hz := congrArg (fun x => x.2.2) hf
    have hrpc := congrArg (fun x => x.1.1) hf
    have hwpc := congrArg (fun x => x.1.2.1) hf
    have hrt := congrArg (fun x => x.1.2.2.1) hf
    have hwt := congrArg (fun x => x.1.2.2.2) hf
    exact not_counted hu hz (hall (small false false) (syncedFile .inp) (syncedFile .out) s
      (fdOrFile_syncedFile .out) hr ⟨hrpc,hwpc,hrt,hwt⟩)

end Yancat.FlushStatus
