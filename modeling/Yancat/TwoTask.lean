import Yancat.Handover
import Yancat.Shared
import Yancat.Transition

/-!
# The two-task transfer

The reading and the writing task over the shared chunk, with signal handlers
in each process and a third party that may call `release` at any time. A
mutex section is entered and left explicitly; reads, writes, buffer copies and
semaphore operations are steps of their own.
-/

namespace Yancat.TwoTask

open Crc RingWindow WordArithmetic Buffer Setup Shared Transition
open Handover (Event)

/-- Position of the reading task. -/
inductive RPc
  /-- In `fd_open`. -/
  | opening
  /-- In `release`, after a failed open. -/
  | releasing (p : RelPc)
  /-- At the first `Pm`. -/
  | lock
  /-- At the loop test, holding the mutex. -/
  | top
  /-- At `Pb(nospace)`. -/
  | wait
  /-- After `Pb(nospace)`, at the test of `done`. -/
  | woken
  /-- At the use of `xrsiz`. -/
  | take
  /-- At the fetch of a grant. -/
  | fetch (siz : ℕ)
  /-- In the read call. -/
  | reading (p : Ptr) (siz : ℕ)
  /-- At `buf_commit_r`. -/
  | commit (n : ℕ)
  /-- At the `Pm` after a read. -/
  | relock (n : ℕ)
  /-- At `buf_commit_rf` and the hand-over, holding the mutex. -/
  | publish (n : ℕ)
  /-- At `Vb(nodata)` of a hand-over, holding the mutex. -/
  | post
  /-- Leaving after a failed read, about to log. -/
  | outLog
  /-- Leaving after a failed read, about to set `abrt`. -/
  | outAbrt
  /-- Leaving, about to set `done`. -/
  | outDone
  /-- Leaving, about to post `nodata`. -/
  | outPost
  /-- The task has ended. -/
  | ended
  deriving DecidableEq

/-- Position of the writing task. -/
inductive WPc
  /-- In `fd_open`. -/
  | opening
  /-- In `release`, after a failed open. -/
  | releasing (p : RelPc)
  /-- At the first `Pm`. -/
  | lock
  /-- At the loop test, holding the mutex. -/
  | top
  /-- At `Pb(nodata)`. -/
  | wait
  /-- After `Pb(nodata)`, at the test of `done`. -/
  | woken
  /-- At the use of `xwsiz`. -/
  | take
  /-- At the fetch of a grant. -/
  | fetch (siz : ℕ)
  /-- In the write call. -/
  | writing (p : Ptr) (siz : ℕ)
  /-- At `buf_commit_w`. -/
  | commit (n : ℕ)
  /-- At the `Pm` after a write. -/
  | relock (n : ℕ)
  /-- At `buf_commit_wf` and the hand-over, holding the mutex. -/
  | publish (n : ℕ)
  /-- At `Vb(nospace)` of a hand-over, holding the mutex. -/
  | post
  /-- Leaving after a failed write, about to log. -/
  | outLog
  /-- Leaving after a failed write, about to set `abrt`. -/
  | outAbrt
  /-- Leaving after a failed write, about to set `done`. -/
  | outDone
  /-- Leaving, about to post `nospace`. -/
  | outPost
  /-- At the test of `abrt`. -/
  | chkAbrt
  /-- In the epilogue. -/
  | epi (p : EpiPc)
  /-- After a failed epilogue, about to log. -/
  | errLog
  /-- The task has ended. -/
  | ended
  deriving DecidableEq

/-- The whole system. -/
structure Sys where
  /-- The shared chunk. -/
  shm : ShrS
  /-- What was moved. -/
  tr : Trace
  /-- The reading task. -/
  rpc : RPc
  /-- The writing task. -/
  wpc : WPc
  /-- The signal handler of each process. -/
  hnd : Role → Option MarkPc
  /-- The third party's `release`. -/
  relay : Option RelPc
  /-- Waits and grants of the reader. No program step reads it. -/
  handR : List (Event ℕ)
  /-- Waits and grants of the writer. No program step reads it. -/
  handW : List (Event ℕ)

/-- Both tasks before their open calls. -/
def Sys.init (buf : BufS) : Sys where
  shm := ShrS.init buf
  tr := Trace.init
  rpc := .opening
  wpc := .opening
  hnd := fun _ => none
  relay := none
  handR := []
  handW := []

/-- One step of `task_reader`. -/
def readerStep (s : Sys) (io : Io) : Option Sys :=
  match s.rpc,io with
  | .opening,.opened true => some {s with rpc := .lock}
  | .opening,.opened false => some {s with rpc := .releasing (.mark .errlog)}
  | .releasing p,.tau =>
    let r := release (errIni+Role.reader.idx) s.shm p
    some {s with shm := r.1,rpc := match r.2 with | some q => .releasing q | none => .ended}
  | .lock,.tau =>
    if s.shm.vars=none then some {s with shm.vars := some .reader,rpc := .top} else none
  | .top,.tau =>
    if s.shm.done=true then some {s with shm.vars := none,rpc := .outDone}
    else
      let can := bufCanR s.shm.buf
      if can.1=0 then
        some {s with shm := {s.shm with buf := can.2,mwait := true,vars := none},rpc := .wait,
                     handR := s.handR++[.wait]}
      else some {s with shm := {s.shm with buf := can.2,vars := none},rpc := .fetch can.1}
  | .wait,.tau =>
    if 0<s.shm.nospace then some {s with shm.nospace := s.shm.nospace-1,rpc := .woken} else none
  | .woken,.tau =>
    if s.shm.done=true then some {s with rpc := .outDone} else some {s with rpc := .take}
  | .take,.tau =>
    some {s with rpc := .fetch s.shm.xrsiz,handR := s.handR++[.use s.shm.xrsiz]}
  | .fetch siz,.tau =>
    let f := bufFetchR s.shm.buf siz
    some {s with shm.buf := f.2,rpc := .reading f.1 siz}
  | .reading p siz,.stored i b =>
    if i<siz then some {s with shm.buf := storeAt s.shm.buf ⟨p.area,p.off+i⟩ [b]} else none
  | .reading p siz,.data bs =>
    if 0<bs.length ∧ bs.length ≤ siz then
      some {s with shm.buf := storeAt s.shm.buf p bs,tr.inp := s.tr.inp++bs,
                   rpc := .commit bs.length}
    else none
  | .reading _ _,.eof => some {s with tr.eof := true,rpc := .outDone}
  | .reading _ _,.rerr e =>
    if e=eintr ∧ s.shm.done=false then some s
    else some {s with shm.errR := e,tr.rfail := true,rpc := .outLog}
  | .commit n,.tau => some {s with shm.buf := bufCommitR s.shm.buf n,rpc := .relock n}
  | .relock n,.tau =>
    if s.shm.vars=none then some {s with shm.vars := some .reader,rpc := .publish n} else none
  | .publish n,.tau =>
    let buf := bufCommitRf s.shm.buf n
    let can := bufCanW buf
    if s.shm.swait=true then
      if can.1=0 then some {s with shm.buf := can.2,tr.cin := s.tr.cin+n,rpc := .top}
      else
        some {s with shm := {s.shm with buf := can.2,swait := false,xwsiz := can.1},
                     tr.cin := s.tr.cin+n,rpc := .post,handW := s.handW++[.grant can.1]}
    else some {s with shm.buf := buf,tr.cin := s.tr.cin+n,rpc := .top}
  | .post,.tau => some {s with shm.nodata := s.shm.nodata+1,rpc := .top}
  | .outLog,.tau =>
    some {s with shm.errlog := Function.update s.shm.errlog (errErr+Role.reader.idx) true,
                 rpc := .outAbrt}
  | .outAbrt,.tau => some {s with shm.abrt := true,rpc := .outDone}
  | .outDone,.tau => some {s with shm.done := true,rpc := .outPost}
  | .outPost,.tau => some {s with shm.nodata := s.shm.nodata+1,rpc := .ended}
  | _,_ => none

/-- One step of `task_writer`. -/
def writerStep (opts : OptionsS) (s : Sys) (io : Io) : Option Sys :=
  match s.wpc,io with
  | .opening,.opened true => some {s with wpc := .lock}
  | .opening,.opened false => some {s with wpc := .releasing (.mark .errlog)}
  | .releasing p,.tau =>
    let r := release (errIni+Role.writer.idx) s.shm p
    some {s with shm := r.1,wpc := match r.2 with | some q => .releasing q | none => .ended}
  | .lock,.tau =>
    if s.shm.vars=none then some {s with shm.vars := some .writer,wpc := .top} else none
  | .top,.tau =>
    if s.shm.done=true then some {s with shm.vars := none,wpc := .outPost}
    else
      let can := bufCanW s.shm.buf
      if can.1=0 then
        some {s with shm := {s.shm with buf := can.2,swait := true,vars := none},wpc := .wait,
                     handW := s.handW++[.wait]}
      else some {s with shm := {s.shm with buf := can.2,vars := none},wpc := .fetch can.1}
  | .wait,.tau =>
    if 0<s.shm.nodata then some {s with shm.nodata := s.shm.nodata-1,wpc := .woken} else none
  | .woken,.tau =>
    if s.shm.done=true then some {s with wpc := .outPost} else some {s with wpc := .take}
  | .take,.tau =>
    some {s with wpc := .fetch s.shm.xwsiz,handW := s.handW++[.use s.shm.xwsiz]}
  | .fetch siz,.tau =>
    let f := bufFetchW s.shm.buf siz
    some {s with shm.buf := f.2,tr.reqs := s.tr.reqs++[loadAt f.2 f.1 siz],wpc := .writing f.1 siz}
  | .writing p siz,.wrote n =>
    if n ≤ siz then some {s with tr.out := s.tr.out++loadAt s.shm.buf p n,wpc := .commit n}
    else none
  | .writing _ _,.werr e =>
    if e=eintr ∧ s.shm.done=false then some s
    else some {s with shm.errW := e,tr.wfail := true,wpc := .outLog}
  | .commit n,.tau => some {s with shm.buf := bufCommitW s.shm.buf n,wpc := .relock n}
  | .relock n,.tau =>
    if s.shm.vars=none then some {s with shm.vars := some .writer,wpc := .publish n} else none
  | .publish n,.tau =>
    let buf := bufCommitWf s.shm.buf n
    let can := bufCanR buf
    if s.shm.mwait=true then
      if can.1=0 then some {s with shm.buf := can.2,tr.cout := s.tr.cout+n,wpc := .top}
      else
        some {s with shm := {s.shm with buf := can.2,mwait := false,xrsiz := can.1},
                     tr.cout := s.tr.cout+n,wpc := .post,handR := s.handR++[.grant can.1]}
    else some {s with shm.buf := buf,tr.cout := s.tr.cout+n,wpc := .top}
  | .post,.tau => some {s with shm.nospace := s.shm.nospace+1,wpc := .top}
  | .outLog,.tau =>
    some {s with shm.errlog := Function.update s.shm.errlog (errErr+Role.writer.idx) true,
                 wpc := .outAbrt}
  | .outAbrt,.tau => some {s with shm.abrt := true,wpc := .outDone}
  | .outDone,.tau => some {s with shm.done := true,wpc := .outPost}
  | .outPost,.tau => some {s with shm.nospace := s.shm.nospace+1,wpc := .chkAbrt}
  | .chkAbrt,.tau =>
    -- a failed main loop has set `abrt` itself, so skipping the epilogue needs no second log
    if s.shm.abrt=true then some {s with wpc := .ended} else some {s with wpc := .epi .setlinew}
  | .epi p,io =>
    match transferWriterEpi opts io s.shm s.tr p with
    | none => none
    | some (g,t,.inl q) => some {s with shm := g,tr := t,wpc := .epi q}
    | some (g,t,.inr failed) =>
      some {s with shm := g,tr := t,wpc := if failed=true then .errLog else .ended}
  | .errLog,.tau =>
    some {s with shm.errlog := Function.update s.shm.errlog (errErr+Role.writer.idx) true,
                 wpc := .ended}
  | _,_ => none

/-- Labels of the system. -/
inductive Act
  /-- The reading task. -/
  | reader (io : Io)
  /-- The writing task. -/
  | writer (io : Io)
  /-- The signal handler of a process, starting it when idle. -/
  | signal (role : Role)
  /-- The third party's `release`, starting it when idle. -/
  | relay

/-- One step of a signal handler. -/
def signalStep (s : Sys) (role : Role) : Sys :=
  let r := shTerminate role s.shm ((s.hnd role).getD .errlog)
  {s with shm := r.1,hnd := Function.update s.hnd role r.2}

/-- One step of the third party's `release`. -/
def relayStep (s : Sys) : Sys :=
  let r := release (errSig+Role.arbiter.idx) s.shm (s.relay.getD (.mark .errlog))
  {s with shm := r.1,relay := r.2}

/-- One step of the system. -/
def step (opts : OptionsS) (s : Sys) : Act → Option Sys
  | .reader io => readerStep s io
  | .writer io => writerStep opts s io
  | .signal role => some (signalStep s role)
  | .relay => some (relayStep s)

end Yancat.TwoTask
