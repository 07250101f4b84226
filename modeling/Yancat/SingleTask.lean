import Yancat.Shared
import Yancat.Transition

/-!
# The single-process transfer

The alternating loop of `transfer_1cpu` with its two counters, followed by the
epilogue, and the signal handler of the process. One statement that touches
shared state is one step, so that a signal may fall between any two.
-/

namespace Yancat.SingleTask

open Crc RingWindow WordArithmetic Buffer Setup Shared Transition

/-- Position of the process. -/
inductive SPc
  /-- In `fd_open` of the input. -/
  | openIn
  /-- In `fd_open` of the output. -/
  | openOut
  /-- In `release`, after a failed open; nothing is posted here. -/
  | releasing (p : MarkPc)
  /-- At the outer loop test. -/
  | top
  /-- At the test of the read loop. -/
  | rtest (cnt : ℕ)
  /-- At the fetch of a read grant. -/
  | rfetch (siz cnt : ℕ)
  /-- In the read call. -/
  | reading (p : Ptr) (siz cnt : ℕ)
  /-- At `buf_commit_r`. -/
  | rcommit (n cnt : ℕ)
  /-- At `buf_commit_rf`. -/
  | rpublish (n cnt : ℕ)
  /-- At the test of the write loop. -/
  | wtest (cnt : ℕ)
  /-- At the fetch of a write grant. -/
  | wfetch (siz cnt : ℕ)
  /-- In the write call. -/
  | writing (p : Ptr) (siz cnt : ℕ)
  /-- At `buf_commit_w`. -/
  | wcommit (n cnt : ℕ)
  /-- At `buf_commit_wf`. -/
  | wpublish (n cnt : ℕ)
  /-- Out of the loops, with the signs of the last read and write results. -/
  | out (rneg wneg : Bool)
  /-- In the epilogue, with the sign of the last read result. -/
  | epi (rneg : Bool) (p : EpiPc)
  /-- At the final test, with the disjunction of both signs. -/
  | fin (neg : Bool)
  /-- The transfer has ended. -/
  | ended
  deriving DecidableEq

/-- The whole process. -/
structure SSys where
  /-- The shared chunk. -/
  shm : ShrS
  /-- What was moved. -/
  tr : Trace
  /-- The position. -/
  pc : SPc
  /-- The signal handler. -/
  hnd : Option MarkPc

/-- The process before its open calls. -/
def SSys.init (buf : BufS) : SSys := ⟨ShrS.init buf,Trace.init,.openIn,none⟩

/-- One step of `task_single`. -/
def taskStep (opts : OptionsS) (s : SSys) (io : Io) : Option SSys :=
  match s.pc,io with
  | .openIn,.opened true => some {s with pc := .openOut}
  | .openIn,.opened false => some {s with pc := .releasing .errlog}
  | .openOut,.opened true => some {s with pc := .top}
  | .openOut,.opened false => some {s with pc := .releasing .errlog}
  | .releasing p,.tau =>
    let r := markStep (errIni+Role.arbiter.idx) s.shm p
    some {s with shm := r.1,pc := match r.2 with | some q => .releasing q | none => .ended}
  | .top,.tau =>
    if s.shm.done=true then some {s with pc := .out false false}
    else some {s with pc := .rtest opts.rcnt}
  | .rtest cnt,.tau =>
    -- the decision is taken, and may change the stall flag, even when the count is used up
    let can := bufCanR s.shm.buf
    if can.1=0 ∨ cnt=0 then some {s with shm.buf := can.2,pc := .wtest opts.wcnt}
    else some {s with shm.buf := can.2,pc := .rfetch can.1 (cnt-1)}
  | .rfetch siz cnt,.tau =>
    let f := bufFetchR s.shm.buf siz
    some {s with shm.buf := f.2,pc := .reading f.1 siz cnt}
  | .reading p siz _,.stored i b =>
    if i<siz then some {s with shm.buf := storeAt s.shm.buf ⟨p.area,p.off+i⟩ [b]} else none
  | .reading p siz cnt,.data bs =>
    if 0<bs.length ∧ bs.length ≤ siz then
      some {s with shm.buf := storeAt s.shm.buf p bs,tr.inp := s.tr.inp++bs,
                   pc := .rcommit bs.length cnt}
    else none
  | .reading _ _ _,.eof => some {s with tr.eof := true,pc := .out false false}
  | .reading _ _ _,.rerr e =>
    if e=eintr ∧ s.shm.done=false then some s
    else some {s with shm.errR := e,tr.rfail := true,pc := .out true false}
  | .rcommit n cnt,.tau => some {s with shm.buf := bufCommitR s.shm.buf n,pc := .rpublish n cnt}
  | .rpublish n cnt,.tau =>
    some {s with shm.buf := bufCommitRf s.shm.buf n,tr.cin := s.tr.cin+n,pc := .rtest cnt}
  | .wtest cnt,.tau =>
    let can := bufCanW s.shm.buf
    if can.1=0 ∨ cnt=0 then some {s with shm.buf := can.2,pc := .top}
    else some {s with shm.buf := can.2,pc := .wfetch can.1 (cnt-1)}
  | .wfetch siz cnt,.tau =>
    let f := bufFetchW s.shm.buf siz
    some {s with shm.buf := f.2,tr.reqs := s.tr.reqs++[loadAt f.2 f.1 siz],
                 pc := .writing f.1 siz cnt}
  | .writing p siz cnt,.wrote n =>
    if n ≤ siz then some {s with tr.out := s.tr.out++loadAt s.shm.buf p n,pc := .wcommit n cnt}
    else none
  | .writing _ _ _,.werr e =>
    if e=eintr ∧ s.shm.done=false then some s
    else some {s with shm.errW := e,tr.wfail := true,pc := .out false true}
  | .wcommit n cnt,.tau => some {s with shm.buf := bufCommitW s.shm.buf n,pc := .wpublish n cnt}
  | .wpublish n cnt,.tau =>
    some {s with shm.buf := bufCommitWf s.shm.buf n,tr.cout := s.tr.cout+n,pc := .wtest cnt}
  | .out rneg wneg,.tau =>
    if wneg=true then some {s with pc := .fin true} else some {s with pc := .epi rneg .setlinew}
  | .epi rneg p,io =>
    match transferWriterEpi opts io s.shm s.tr p with
    | none => none
    | some (g,t,.inl q) => some {s with shm := g,tr := t,pc := .epi rneg q}
    | some (g,t,.inr failed) => some {s with shm := g,tr := t,pc := .fin (rneg || failed)}
  | .fin neg,.tau =>
    if neg=true then
      some {s with shm.errlog := Function.update s.shm.errlog (errErr+Role.arbiter.idx) true,
                   pc := .ended}
    else some {s with pc := .ended}
  | _,_ => none

/-- Labels of the process. -/
inductive Act
  /-- The transfer. -/
  | task (io : Io)
  /-- The signal handler, starting it when idle. -/
  | signal

/-- One step of the signal handler. -/
def signalStep (s : SSys) : SSys :=
  let r := shTerminate .arbiter s.shm (s.hnd.getD .errlog)
  {s with shm := r.1,hnd := r.2}

/-- One step of the process. -/
def step (opts : OptionsS) (s : SSys) : Act → Option SSys
  | .task io => taskStep opts s io
  | .signal => some (signalStep s)

/-- The outcomes of one step of `task_single`. -/
inductive SStep (opts : OptionsS) (s : SSys) : Io → SSys → Prop
  /-- The input was opened. -/
  | openedIn (hpc : s.pc=.openIn) : SStep opts s (.opened true) {s with pc := .openOut}
  /-- The input could not be opened. -/
  | unopenedIn (hpc : s.pc=.openIn) :
    SStep opts s (.opened false) {s with pc := .releasing .errlog}
  /-- The output was opened. -/
  | openedOut (hpc : s.pc=.openOut) : SStep opts s (.opened true) {s with pc := .top}
  /-- The output could not be opened. -/
  | unopenedOut (hpc : s.pc=.openOut) :
    SStep opts s (.opened false) {s with pc := .releasing .errlog}
  /-- A statement of `release` that is not its last. -/
  | releasing {p q : MarkPc} {g : ShrS} (hpc : s.pc=.releasing p)
    (hr : markStep (errIni+Role.arbiter.idx) s.shm p=(g,some q)) :
    SStep opts s .tau {s with shm := g,pc := .releasing q}
  /-- The last statement of `release`. -/
  | released {p : MarkPc} {g : ShrS} (hpc : s.pc=.releasing p)
    (hr : markStep (errIni+Role.arbiter.idx) s.shm p=(g,none)) :
    SStep opts s .tau {s with shm := g,pc := .ended}
  /-- The outer loop ends. -/
  | stop (hpc : s.pc=.top) (hd : s.shm.done=true) :
    SStep opts s .tau {s with pc := .out false false}
  /-- The outer loop goes on. -/
  | round (hpc : s.pc=.top) (hd : s.shm.done=false) :
    SStep opts s .tau {s with pc := .rtest opts.rcnt}
  /-- The read loop ends: no space, or the count is used up. -/
  | rskip {cnt : ℕ} (hpc : s.pc=.rtest cnt) (hz : (bufCanR s.shm.buf).1=0 ∨ cnt=0) :
    SStep opts s .tau
      {s with shm := {s.shm with buf := (bufCanR s.shm.buf).2},pc := .wtest opts.wcnt}
  /-- The read loop goes on. -/
  | rgrant {cnt : ℕ} (hpc : s.pc=.rtest cnt) (hz : (bufCanR s.shm.buf).1≠0) (hc : cnt≠0) :
    SStep opts s .tau
      {s with
        shm := {s.shm with buf := (bufCanR s.shm.buf).2}
        pc := .rfetch (bufCanR s.shm.buf).1 (cnt-1)}
  /-- The area of a read grant is fetched. -/
  | rfetch {siz cnt : ℕ} (hpc : s.pc=.rfetch siz cnt) :
    SStep opts s .tau
      {s with
        shm := {s.shm with buf := (bufFetchR s.shm.buf siz).2}
        pc := .reading (bufFetchR s.shm.buf siz).1 siz cnt}
  /-- The read call stores a byte. -/
  | stored {p : Ptr} {siz cnt i : ℕ} {b : Byte} (hpc : s.pc=.reading p siz cnt) (hi : i<siz) :
    SStep opts s (.stored i b)
      {s with shm := {s.shm with buf := storeAt s.shm.buf ⟨p.area,p.off+i⟩ [b]}}
  /-- The read call returns bytes. -/
  | data {p : Ptr} {siz cnt : ℕ} {bs : List Byte} (hpc : s.pc=.reading p siz cnt)
    (hpos : 0<bs.length) (hle : bs.length ≤ siz) :
    SStep opts s (.data bs)
      {s with
        shm := {s.shm with buf := storeAt s.shm.buf p bs}
        tr := {s.tr with inp := s.tr.inp++bs}
        pc := .rcommit bs.length cnt}
  /-- The read call returns zero. -/
  | eof {p : Ptr} {siz cnt : ℕ} (hpc : s.pc=.reading p siz cnt) :
    SStep opts s .eof {s with tr := {s.tr with eof := true},pc := .out false false}
  /-- The read call was interrupted and is made again. -/
  | rretry {p : Ptr} {siz cnt e : ℕ} (hpc : s.pc=.reading p siz cnt)
    (he : e=eintr ∧ s.shm.done=false) : SStep opts s (.rerr e) s
  /-- The read call failed for good. -/
  | rfail {p : Ptr} {siz cnt e : ℕ} (hpc : s.pc=.reading p siz cnt)
    (he : ¬(e=eintr ∧ s.shm.done=false)) :
    SStep opts s (.rerr e)
      {s with
        shm := {s.shm with errR := e}
        tr := {s.tr with rfail := true}
        pc := .out true false}
  /-- The read is counted. -/
  | rcommit {n cnt : ℕ} (hpc : s.pc=.rcommit n cnt) :
    SStep opts s .tau
      {s with shm := {s.shm with buf := bufCommitR s.shm.buf n},pc := .rpublish n cnt}
  /-- The read is published. -/
  | rpublish {n cnt : ℕ} (hpc : s.pc=.rpublish n cnt) :
    SStep opts s .tau
      {s with
        shm := {s.shm with buf := bufCommitRf s.shm.buf n}
        tr := {s.tr with cin := s.tr.cin+n}
        pc := .rtest cnt}
  /-- The write loop ends: no data, or the count is used up. -/
  | wskip {cnt : ℕ} (hpc : s.pc=.wtest cnt) (hz : (bufCanW s.shm.buf).1=0 ∨ cnt=0) :
    SStep opts s .tau {s with shm := {s.shm with buf := (bufCanW s.shm.buf).2},pc := .top}
  /-- The write loop goes on. -/
  | wgrant {cnt : ℕ} (hpc : s.pc=.wtest cnt) (hz : (bufCanW s.shm.buf).1≠0) (hc : cnt≠0) :
    SStep opts s .tau
      {s with
        shm := {s.shm with buf := (bufCanW s.shm.buf).2}
        pc := .wfetch (bufCanW s.shm.buf).1 (cnt-1)}
  /-- The area of a write grant is fetched. -/
  | wfetch {siz cnt : ℕ} (hpc : s.pc=.wfetch siz cnt) :
    SStep opts s .tau
      {s with
        shm := {s.shm with buf := (bufFetchW s.shm.buf siz).2}
        tr := {s.tr with
          reqs := s.tr.reqs++[loadAt (bufFetchW s.shm.buf siz).2 (bufFetchW s.shm.buf siz).1 siz]}
        pc := .writing (bufFetchW s.shm.buf siz).1 siz cnt}
  /-- The write call accepts a number of bytes. -/
  | wrote {p : Ptr} {siz cnt n : ℕ} (hpc : s.pc=.writing p siz cnt) (hn : n ≤ siz) :
    SStep opts s (.wrote n)
      {s with tr := {s.tr with out := s.tr.out++loadAt s.shm.buf p n},pc := .wcommit n cnt}
  /-- The write call was interrupted and is made again. -/
  | wretry {p : Ptr} {siz cnt e : ℕ} (hpc : s.pc=.writing p siz cnt)
    (he : e=eintr ∧ s.shm.done=false) : SStep opts s (.werr e) s
  /-- The write call failed for good. -/
  | wfail {p : Ptr} {siz cnt e : ℕ} (hpc : s.pc=.writing p siz cnt)
    (he : ¬(e=eintr ∧ s.shm.done=false)) :
    SStep opts s (.werr e)
      {s with
        shm := {s.shm with errW := e}
        tr := {s.tr with wfail := true}
        pc := .out false true}
  /-- The write is counted. -/
  | wcommit {n cnt : ℕ} (hpc : s.pc=.wcommit n cnt) :
    SStep opts s .tau
      {s with shm := {s.shm with buf := bufCommitW s.shm.buf n},pc := .wpublish n cnt}
  /-- The write is released. -/
  | wpublish {n cnt : ℕ} (hpc : s.pc=.wpublish n cnt) :
    SStep opts s .tau
      {s with
        shm := {s.shm with buf := bufCommitWf s.shm.buf n}
        tr := {s.tr with cout := s.tr.cout+n}
        pc := .wtest cnt}
  /-- A failed write skips the epilogue. -/
  | skip {rneg : Bool} (hpc : s.pc=.out rneg true) : SStep opts s .tau {s with pc := .fin true}
  /-- The epilogue is entered. -/
  | enter {rneg : Bool} (hpc : s.pc=.out rneg false) :
    SStep opts s .tau {s with pc := .epi rneg .setlinew}
  /-- A step inside the epilogue. -/
  | epi {rneg : Bool} {p q : EpiPc} {io : Io} {g : ShrS} {t : Trace} (hpc : s.pc=.epi rneg p)
    (he : EpiStep opts s.shm s.tr p io g t (.inl q)) :
    SStep opts s io {s with shm := g,tr := t,pc := .epi rneg q}
  /-- The epilogue is left. -/
  | epiEnd {rneg failed : Bool} {p : EpiPc} {io : Io} {g : ShrS} {t : Trace}
    (hpc : s.pc=.epi rneg p) (he : EpiStep opts s.shm s.tr p io g t (.inr failed)) :
    SStep opts s io {s with shm := g,tr := t,pc := .fin (rneg || failed)}
  /-- A failed call is logged. -/
  | log (hpc : s.pc=.fin true) :
    SStep opts s .tau
      {s with
        shm := {s.shm with
          errlog := Function.update s.shm.errlog (errErr+Role.arbiter.idx) true}
        pc := .ended}
  /-- There is nothing to log. -/
  | clean (hpc : s.pc=.fin false) : SStep opts s .tau {s with pc := .ended}

/-- The executable transfer does nothing else. -/
theorem taskStep_cases {opts : OptionsS} {s t : SSys} {io : Io} (h : taskStep opts s io=some t) :
    SStep opts s io t := by
  unfold taskStep at h
  split at h
  · next hpc =>
    cases h
    exact .openedIn hpc
  · next hpc =>
    cases h
    exact .unopenedIn hpc
  · next hpc =>
    cases h
    exact .openedOut hpc
  · next hpc =>
    cases h
    exact .unopenedOut hpc
  · next p hpc =>
    cases h
    cases hr : markStep (errIni+Role.arbiter.idx) s.shm p with
    | mk g next =>
      cases next with
      | some q => exact .releasing hpc hr
      | none => exact .released hpc hr
  · next hpc =>
    split at h
    · next hd =>
      cases h
      exact .stop hpc hd
    · next hd =>
      cases h
      exact .round hpc (Bool.eq_false_of_not_eq_true hd)
  · next cnt hpc =>
    dsimp only at h
    split at h
    · next hz =>
      cases h
      exact .rskip hpc hz
    · next hz =>
      cases h
      exact .rgrant hpc (fun he => hz (.inl he)) (fun he => hz (.inr he))
  · next siz cnt hpc =>
    cases h
    exact .rfetch hpc
  · next p siz cnt i b hpc =>
    split at h
    · next hi =>
      cases h
      exact .stored hpc hi
    · cases h
  · next p siz cnt bs hpc =>
    split at h
    · next hb =>
      cases h
      exact .data hpc hb.1 hb.2
    · cases h
  · next p siz cnt hpc =>
    cases h
    exact .eof hpc
  · next p siz cnt e hpc =>
    split at h
    · next he =>
      cases h
      exact .rretry hpc he
    · next he =>
      cases h
      exact .rfail hpc he
  · next n cnt hpc =>
    cases h
    exact .rcommit hpc
  · next n cnt hpc =>
    cases h
    exact .rpublish hpc
  · next cnt hpc =>
    dsimp only at h
    split at h
    · next hz =>
      cases h
      exact .wskip hpc hz
    · next hz =>
      cases h
      exact .wgrant hpc (fun he => hz (.inl he)) (fun he => hz (.inr he))
  · next siz cnt hpc =>
    cases h
    exact .wfetch hpc
  · next p siz cnt n hpc =>
    split at h
    · next hn =>
      cases h
      exact .wrote hpc hn
    · cases h
  · next p siz cnt e hpc =>
    split at h
    · next he =>
      cases h
      exact .wretry hpc he
    · next he =>
      cases h
      exact .wfail hpc he
  · next n cnt hpc =>
    cases h
    exact .wcommit hpc
  · next n cnt hpc =>
    cases h
    exact .wpublish hpc
  · next rneg wneg hpc =>
    cases wneg with
    | true =>
      cases h
      exact .skip hpc
    | false =>
      cases h
      exact .enter hpc
  · next rneg p _ hpc =>
    split at h
    · cases h
    · next g t q he =>
      cases h
      exact .epi hpc (transferWriterEpi_cases he)
    · next g t failed he =>
      cases h
      exact .epiEnd hpc (transferWriterEpi_cases he)
  · next neg hpc =>
    cases neg with
    | true =>
      cases h
      exact .log hpc
    | false =>
      cases h
      exact .clean hpc
  · cases h

end Yancat.SingleTask
