import Yancat.BufferData
import Yancat.Setup

/-!
# Shared state and the pieces both transfer drivers use

The shared memory chunk, the record of what the outside world has seen, the
flag sequences of the signal handler and of `release`, the draining epilogue
and the final verdict. Every statement that touches shared state is one step,
so that whatever runs beside it may interleave.
-/

namespace Yancat.Shared

open Crc RingWindow WordArithmetic Buffer Setup

/-- Who executes. -/
inductive Role
  /-- The main process. -/
  | arbiter
  /-- The reading task. -/
  | reader
  /-- The writing task. -/
  | writer
  /-- Unused checksum task. -/
  | crcer
  /-- The signalling thread. -/
  | sigrelay
  deriving DecidableEq

/-- The number of a role. -/
def Role.idx : Role → ℕ
  | .arbiter => 0
  | .reader => 1
  | .writer => 2
  | .crcer => 3
  | .sigrelay => 4

/-- Error log base for signals. -/
def errSig : ℕ := 0

/-- Error log base for initialization failures. -/
def errIni : ℕ := 4

/-- Error log base for transfer errors. -/
def errErr : ℕ := 8

/-- Number of error log entries. -/
def errlCnt : ℕ := 12

/-- The error number of an interrupted call. -/
def eintr : ℕ := 4

/-- The shared memory chunk. -/
structure ShrS where
  /-- The buffer object. -/
  buf : BufS
  /-- Read grant handed over by the writer. -/
  xrsiz : ℕ
  /-- Write grant handed over by the reader. -/
  xwsiz : ℕ
  /-- Error number of a failed read. -/
  errR : ℕ
  /-- Error number of a failed write. -/
  errW : ℕ
  /-- Set on errors and signals. -/
  abrt : Bool
  /-- Terminates the loops. -/
  done : Bool
  /-- The reader waits for space. -/
  mwait : Bool
  /-- The writer waits for data. -/
  swait : Bool
  /-- The error log. -/
  errlog : ℕ → Bool
  /-- Holder of the mutex. -/
  vars : Option Role
  /-- Count of the semaphore the reader waits on. -/
  nospace : ℕ
  /-- Count of the semaphore the writer waits on. -/
  nodata : ℕ

/-- The cleared chunk around a constructed buffer. -/
def ShrS.init (buf : BufS) : ShrS where
  buf := buf
  xrsiz := 0
  xwsiz := 0
  errR := 0
  errW := 0
  abrt := false
  done := false
  mwait := false
  swait := false
  errlog := fun _ => false
  vars := none
  nospace := 0
  nodata := 0

/-- What the calls of a run have moved so far. No program step reads it. -/
structure Trace where
  /-- Bytes returned by reads, in order. -/
  inp : List Byte
  /-- Bytes accepted by writes, in order. -/
  out : List Byte
  /-- Bytes offered by each write request, in order. -/
  reqs : List (List Byte)
  /-- Bytes published by the reader. -/
  cin : ℕ
  /-- Bytes released by the writer. -/
  cout : ℕ
  /-- A read returned zero. -/
  eof : Bool
  /-- A read failed for good. -/
  rfail : Bool
  /-- A write failed for good. -/
  wfail : Bool

/-- Nothing moved yet. -/
def Trace.init : Trace := ⟨[],[],[],0,0,false,false,false⟩

/-- What a step of a task meets in its environment. -/
inductive Io
  /-- No call is made. -/
  | tau
  /-- The open call returns. -/
  | opened (ok : Bool)
  /-- The read call in progress stores one byte at an offset of its area. -/
  | stored (i : ℕ) (b : Byte)
  /-- The read call returns bytes. -/
  | data (bs : List Byte)
  /-- The read call returns zero. -/
  | eof
  /-- The read call fails. -/
  | rerr (e : ℕ)
  /-- The write call accepts a number of bytes. -/
  | wrote (n : ℕ)
  /-- The write call fails. -/
  | werr (e : ℕ)

/-- An environment in which calls succeed. -/
def Io.calm : Io → Bool
  | .opened ok => ok
  | .rerr _ => false
  | .werr _ => false
  | _ => true

/-- An environment in which opens and writes succeed. -/
def Io.delivers : Io → Bool
  | .opened ok => ok
  | .werr _ => false
  | _ => true

/-- Where calls succeed, opens and writes do. -/
theorem Io.calm_delivers {io : Io} (h : io.calm=true) : io.delivers=true := by
  cases io with
  | opened ok => exact h
  | werr e => exact h
  | _ => rfl

/-- Position in the three assignments that mark a failure. -/
inductive MarkPc
  /-- About to log. -/
  | errlog
  /-- About to set `abrt`. -/
  | abrt
  /-- About to set `done`. -/
  | done
  deriving DecidableEq

/-- One assignment of a failure mark: the log entry first, `done` last. -/
def markStep (slot : ℕ) (g : ShrS) : MarkPc → ShrS×Option MarkPc
  | .errlog => ({g with errlog := Function.update g.errlog slot true},some .abrt)
  | .abrt => ({g with abrt := true},some .done)
  | .done => ({g with done := true},none)

/-- The signal handler: a failure mark in the log entry of the process. -/
def shTerminate (role : Role) : ShrS → MarkPc → ShrS×Option MarkPc := markStep (errSig+role.idx)

/-- Position in `release`. -/
inductive RelPc
  /-- In the failure mark. -/
  | mark (p : MarkPc)
  /-- About to post `nodata`. -/
  | nodata
  /-- About to post `nospace`. -/
  | nospace
  deriving DecidableEq

/-- One statement of `release` outside single process mode. -/
def release (slot : ℕ) (g : ShrS) : RelPc → ShrS×Option RelPc
  | .mark p =>
    match (markStep slot g p).2 with
    | some q => ((markStep slot g p).1,some (.mark q))
    | none => ((markStep slot g p).1,some .nodata)
  | .nodata => ({g with nodata := g.nodata+1},some .nospace)
  | .nospace => ({g with nospace := g.nospace+1},none)

/-- Position in the draining epilogue. -/
inductive EpiPc
  /-- At `buf_setlinew`. -/
  | setlinew
  /-- At the loop test. -/
  | top
  /-- At the fetch of a grant. -/
  | fetch (siz : ℕ)
  /-- In the write call. -/
  | writing (p : Ptr) (siz pad : ℕ)
  /-- At `buf_commit_w`. -/
  | commit (siz n : ℕ)
  /-- At `buf_commit_wf`. -/
  | publish (siz n : ℕ)
  deriving DecidableEq

/-- The fetch of the epilogue: a short block is padded with zeros in the
bounce chunk in strict mode. Returns the pointer and the padding. -/
def epiFetch (opts : OptionsS) (buf : BufS) (siz : ℕ) : Ptr×ℕ×BufS :=
  if siz<opts.wblk ∧ opts.strict=true then
    let pad := opts.wblk-siz
    let out := bufForcefetchW buf siz
    (out.1,pad,storeAt out.2 ⟨out.1.area,out.1.off+siz⟩ (List.replicate pad 0))
  else
    let out := bufFetchW buf siz
    (out.1,0,out.2)

/-- The fetch of the epilogue moves no index. -/
theorem epiFetch_moved (opts : OptionsS) (buf : BufS) (siz : ℕ) :
    Moved buf (epiFetch opts buf siz).2.2 := by
  unfold epiFetch
  split
  · dsimp only
    exact (ibufFetchWbounce_moved buf siz).trans (storeAt_moved _ _ _)
  · exact bufFetchW_moved buf siz

/-- One step of `transfer_writer_epi`. The result is the next position, or
whether the last write failed when the loop is left. -/
def transferWriterEpi (opts : OptionsS) (io : Io) (g : ShrS) (t : Trace) :
    EpiPc → Option (ShrS×Trace×(EpiPc⊕Bool))
  | .setlinew =>
    match io with
    | .tau => some ({g with buf := bufSetlinew g.buf},t,.inl .top)
    | _ => none
  | .top =>
    match io with
    | .tau =>
      let siz := (bufCanW g.buf).1
      let g1 := {g with buf := (bufCanW g.buf).2}
      if siz=0 then some (g1,t,.inr false) else some (g1,t,.inl (.fetch siz))
    | _ => none
  | .fetch siz =>
    match io with
    | .tau =>
      let f := epiFetch opts g.buf siz
      some ({g with buf := f.2.2},
        {t with reqs := t.reqs++[loadAt f.2.2 f.1 (siz+f.2.1)]},.inl (.writing f.1 siz f.2.1))
    | _ => none
  | .writing p siz pad =>
    match io with
    | .wrote n =>
      if n ≤ siz+pad then some (g,{t with out := t.out++loadAt g.buf p n},.inl (.commit siz n))
      else none
    | .werr e =>
      if e=eintr ∧ g.done=false then some (g,t,.inl (.writing p siz pad))
      else some ({g with errW := e},{t with wfail := true},.inr true)
    | _ => none
  | .commit siz n =>
    match io with
    | .tau => some ({g with buf := bufCommitW g.buf n},t,.inl (.publish siz n))
    | _ => none
  | .publish siz n =>
    match io with
    | .tau =>
      some ({g with buf := bufCommitWf g.buf (min siz n)},{t with cout := t.cout+min siz n},
        .inl .top)
    | _ => none

/-- The outcomes of one step of the epilogue. -/
inductive EpiStep (opts : OptionsS) (g : ShrS) (t : Trace) :
    EpiPc → Io → ShrS → Trace → EpiPc⊕Bool → Prop
  /-- The writer is switched to draining. -/
  | setlinew :
    EpiStep opts g t .setlinew .tau {g with buf := bufSetlinew g.buf} t (.inl .top)
  /-- Nothing is left. -/
  | drained (hz : (bufCanW g.buf).1=0) :
    EpiStep opts g t .top .tau {g with buf := (bufCanW g.buf).2} t (.inr false)
  /-- More is left. -/
  | grant (hz : (bufCanW g.buf).1≠0) :
    EpiStep opts g t .top .tau {g with buf := (bufCanW g.buf).2} t
      (.inl (.fetch (bufCanW g.buf).1))
  /-- The area of a grant is fetched, and padded where that applies. -/
  | fetch {siz : ℕ} :
    EpiStep opts g t (.fetch siz) .tau {g with buf := (epiFetch opts g.buf siz).2.2}
      {t with
        reqs := t.reqs++[loadAt (epiFetch opts g.buf siz).2.2 (epiFetch opts g.buf siz).1
          (siz+(epiFetch opts g.buf siz).2.1)]}
      (.inl (.writing (epiFetch opts g.buf siz).1 siz (epiFetch opts g.buf siz).2.1))
  /-- The write call accepts a number of bytes. -/
  | wrote {p : Ptr} {siz pad n : ℕ} (hn : n ≤ siz+pad) :
    EpiStep opts g t (.writing p siz pad) (.wrote n) g
      {t with out := t.out++loadAt g.buf p n} (.inl (.commit siz n))
  /-- The write call was interrupted and is made again. -/
  | retry {p : Ptr} {siz pad e : ℕ} (he : e=eintr ∧ g.done=false) :
    EpiStep opts g t (.writing p siz pad) (.werr e) g t (.inl (.writing p siz pad))
  /-- The write call failed for good. -/
  | fail {p : Ptr} {siz pad e : ℕ} (he : ¬(e=eintr ∧ g.done=false)) :
    EpiStep opts g t (.writing p siz pad) (.werr e) {g with errW := e}
      {t with wfail := true} (.inr true)
  /-- The write is counted. -/
  | commit {siz n : ℕ} :
    EpiStep opts g t (.commit siz n) .tau {g with buf := bufCommitW g.buf n} t
      (.inl (.publish siz n))
  /-- The written stream bytes are released. -/
  | publish {siz n : ℕ} :
    EpiStep opts g t (.publish siz n) .tau {g with buf := bufCommitWf g.buf (min siz n)}
      {t with cout := t.cout+min siz n} (.inl .top)

/-- The executable epilogue does nothing else. -/
theorem transferWriterEpi_cases {opts : OptionsS} {io : Io} {g g' : ShrS} {t t' : Trace}
    {p : EpiPc} {q : EpiPc⊕Bool} (h : transferWriterEpi opts io g t p=some (g',t',q)) :
    EpiStep opts g t p io g' t' q := by
  cases p with
  | setlinew =>
    cases io with
    | tau =>
      cases h
      exact .setlinew
    | _ => cases h
  | top =>
    cases io with
    | tau =>
      unfold transferWriterEpi at h
      dsimp only at h
      split at h
      · next hz =>
        cases h
        exact .drained hz
      · next hz =>
        cases h
        exact .grant hz
    | _ => cases h
  | fetch siz =>
    cases io with
    | tau =>
      cases h
      exact .fetch
    | _ => cases h
  | writing p siz pad =>
    cases io with
    | wrote n =>
      unfold transferWriterEpi at h
      dsimp only at h
      split at h
      · next hn =>
        cases h
        exact .wrote hn
      · cases h
    | werr e =>
      unfold transferWriterEpi at h
      dsimp only at h
      split at h
      · next he =>
        cases h
        exact .retry he
      · next he =>
        cases h
        exact .fail he
    | _ => cases h
  | commit siz n =>
    cases io with
    | tau =>
      cases h
      exact .commit
    | _ => cases h
  | publish siz n =>
    cases io with
    | tau =>
      cases h
      exact .publish
    | _ => cases h

/-- The verdict of `reaper`: zero when no log entry is set. -/
def reaper (g : ShrS) : ℤ := if (List.range errlCnt).any g.errlog=true then -1 else 0

/-- A zero verdict means an empty log. -/
theorem reaper_zero {g : ShrS} (h : reaper g=0) {i : ℕ} (hi : i<errlCnt) : g.errlog i=false := by
  unfold reaper at h
  split at h
  · cases h
  · next hn =>
    rw [List.any_eq_true] at hn
    exact Bool.eq_false_of_not_eq_true fun hl => hn ⟨i,List.mem_range.mpr hi,hl⟩

end Yancat.Shared
