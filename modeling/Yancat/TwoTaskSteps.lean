import Yancat.TwoTask

/-!
# What a step of either task can do

One case for every statement and outcome of the two transfer functions, with
its guard and the whole state it leads to. Every invariant of the system is
proved by cases on these relations, and the executable functions are unfolded
here only.
-/

namespace Yancat.TwoTask

open Crc RingWindow WordArithmetic Buffer Setup Shared Transition

/-- The outcomes of one step of `task_reader`. -/
inductive RStep (s : Sys) : Io → Sys → Prop
  /-- The open call succeeded. -/
  | opened (hpc : s.rpc=.opening) : RStep s (.opened true) {s with rpc := .lock}
  /-- The open call failed. -/
  | unopened (hpc : s.rpc=.opening) :
    RStep s (.opened false) {s with rpc := .releasing (.mark .errlog)}
  /-- A statement of `release` that is not its last. -/
  | releasing {p q : RelPc} {g : ShrS} (hpc : s.rpc=.releasing p)
    (hr : release (errIni+Role.reader.idx) s.shm p=(g,some q)) :
    RStep s .tau {s with shm := g,rpc := .releasing q}
  /-- The last statement of `release`. -/
  | released {p : RelPc} {g : ShrS} (hpc : s.rpc=.releasing p)
    (hr : release (errIni+Role.reader.idx) s.shm p=(g,none)) :
    RStep s .tau {s with shm := g,rpc := .ended}
  /-- The mutex was free. -/
  | lock (hpc : s.rpc=.lock) (hv : s.shm.vars=none) :
    RStep s .tau {s with shm := {s.shm with vars := some .reader},rpc := .top}
  /-- The loop ends. -/
  | stop (hpc : s.rpc=.top) (hd : s.shm.done=true) :
    RStep s .tau {s with shm := {s.shm with vars := none},rpc := .outDone}
  /-- No space: announce a wait. -/
  | refuse (hpc : s.rpc=.top) (hd : s.shm.done=false) (hz : (bufCanR s.shm.buf).1=0) :
    RStep s .tau
      {s with
        shm := {s.shm with buf := (bufCanR s.shm.buf).2,mwait := true,vars := none}
        rpc := .wait
        handR := s.handR++[.wait]}
  /-- A grant of its own. -/
  | grant (hpc : s.rpc=.top) (hd : s.shm.done=false) (hz : (bufCanR s.shm.buf).1≠0) :
    RStep s .tau
      {s with
        shm := {s.shm with buf := (bufCanR s.shm.buf).2,vars := none}
        rpc := .fetch (bufCanR s.shm.buf).1}
  /-- The wait takes a post. -/
  | wake (hpc : s.rpc=.wait) (hn : 0<s.shm.nospace) :
    RStep s .tau {s with shm := {s.shm with nospace := s.shm.nospace-1},rpc := .woken}
  /-- Woken to leave. -/
  | quit (hpc : s.rpc=.woken) (hd : s.shm.done=true) : RStep s .tau {s with rpc := .outDone}
  /-- Woken to go on. -/
  | resume (hpc : s.rpc=.woken) (hd : s.shm.done=false) : RStep s .tau {s with rpc := .take}
  /-- The stored grant is used. -/
  | take (hpc : s.rpc=.take) :
    RStep s .tau {s with rpc := .fetch s.shm.xrsiz,handR := s.handR++[.use s.shm.xrsiz]}
  /-- The area of a grant is fetched. -/
  | fetch {siz : ℕ} (hpc : s.rpc=.fetch siz) :
    RStep s .tau
      {s with
        shm := {s.shm with buf := (bufFetchR s.shm.buf siz).2}
        rpc := .reading (bufFetchR s.shm.buf siz).1 siz}
  /-- The read call stores a byte. -/
  | stored {p : Ptr} {siz i : ℕ} {b : Byte} (hpc : s.rpc=.reading p siz) (hi : i<siz) :
    RStep s (.stored i b)
      {s with shm := {s.shm with buf := storeAt s.shm.buf ⟨p.area,p.off+i⟩ [b]}}
  /-- The read call returns bytes. -/
  | data {p : Ptr} {siz : ℕ} {bs : List Byte} (hpc : s.rpc=.reading p siz)
    (hpos : 0<bs.length) (hle : bs.length ≤ siz) :
    RStep s (.data bs)
      {s with
        shm := {s.shm with buf := storeAt s.shm.buf p bs}
        tr := {s.tr with inp := s.tr.inp++bs}
        rpc := .commit bs.length}
  /-- The read call returns zero. -/
  | eof {p : Ptr} {siz : ℕ} (hpc : s.rpc=.reading p siz) :
    RStep s .eof {s with tr := {s.tr with eof := true},rpc := .outDone}
  /-- The read call was interrupted and is made again. -/
  | retry {p : Ptr} {siz e : ℕ} (hpc : s.rpc=.reading p siz)
    (he : e=eintr ∧ s.shm.done=false) : RStep s (.rerr e) s
  /-- The read call failed for good. -/
  | fail {p : Ptr} {siz e : ℕ} (hpc : s.rpc=.reading p siz)
    (he : ¬(e=eintr ∧ s.shm.done=false)) :
    RStep s (.rerr e)
      {s with shm := {s.shm with errR := e},tr := {s.tr with rfail := true},rpc := .outLog}
  /-- The read is counted. -/
  | commit {n : ℕ} (hpc : s.rpc=.commit n) :
    RStep s .tau {s with shm := {s.shm with buf := bufCommitR s.shm.buf n},rpc := .relock n}
  /-- The mutex was free. -/
  | relock {n : ℕ} (hpc : s.rpc=.relock n) (hv : s.shm.vars=none) :
    RStep s .tau {s with shm := {s.shm with vars := some .reader},rpc := .publish n}
  /-- The read is published; the writer does not wait. -/
  | publish {n : ℕ} (hpc : s.rpc=.publish n) (hw : s.shm.swait=false) :
    RStep s .tau
      {s with
        shm := {s.shm with buf := bufCommitRf s.shm.buf n}
        tr := {s.tr with cin := s.tr.cin+n}
        rpc := .top}
  /-- The read is published; the waiting writer gets nothing. -/
  | publishNone {n : ℕ} (hpc : s.rpc=.publish n) (hw : s.shm.swait=true)
    (hz : (bufCanW (bufCommitRf s.shm.buf n)).1=0) :
    RStep s .tau
      {s with
        shm := {s.shm with buf := (bufCanW (bufCommitRf s.shm.buf n)).2}
        tr := {s.tr with cin := s.tr.cin+n}
        rpc := .top}
  /-- The read is published; the waiting writer is handed a grant. -/
  | publishGrant {n : ℕ} (hpc : s.rpc=.publish n) (hw : s.shm.swait=true)
    (hz : (bufCanW (bufCommitRf s.shm.buf n)).1≠0) :
    RStep s .tau
      {s with
        shm := {s.shm with
          buf := (bufCanW (bufCommitRf s.shm.buf n)).2
          swait := false
          xwsiz := (bufCanW (bufCommitRf s.shm.buf n)).1}
        tr := {s.tr with cin := s.tr.cin+n}
        rpc := .post
        handW := s.handW++[.grant (bufCanW (bufCommitRf s.shm.buf n)).1]}
  /-- The hand-over is posted. -/
  | post (hpc : s.rpc=.post) :
    RStep s .tau {s with shm := {s.shm with nodata := s.shm.nodata+1},rpc := .top}
  /-- The failure is logged. -/
  | outLog (hpc : s.rpc=.outLog) :
    RStep s .tau
      {s with
        shm := {s.shm with
          errlog := Function.update s.shm.errlog (errErr+Role.reader.idx) true}
        rpc := .outAbrt}
  /-- The failure raises `abrt`. -/
  | outAbrt (hpc : s.rpc=.outAbrt) :
    RStep s .tau {s with shm := {s.shm with abrt := true},rpc := .outDone}
  /-- Leaving raises `done`. -/
  | outDone (hpc : s.rpc=.outDone) :
    RStep s .tau {s with shm := {s.shm with done := true},rpc := .outPost}
  /-- Leaving posts `nodata`. -/
  | outPost (hpc : s.rpc=.outPost) :
    RStep s .tau {s with shm := {s.shm with nodata := s.shm.nodata+1},rpc := .ended}

/-- The executable reader does nothing else. -/
theorem readerStep_cases {s t : Sys} {io : Io} (h : readerStep s io=some t) : RStep s io t := by
  unfold readerStep at h
  split at h
  · next hpc =>
    cases h
    exact .opened hpc
  · next hpc =>
    cases h
    exact .unopened hpc
  · next p hpc =>
    cases h
    cases hr : release (errIni+Role.reader.idx) s.shm p with
    | mk g next =>
      cases next with
      | some q => exact .releasing hpc hr
      | none => exact .released hpc hr
  · next hpc =>
    split at h
    · next hv =>
      cases h
      exact .lock hpc hv
    · cases h
  · next hpc =>
    split at h
    · next hd =>
      cases h
      exact .stop hpc hd
    · next hd =>
      have hd' := Bool.eq_false_of_not_eq_true hd
      dsimp only at h
      split at h
      · next hz =>
        cases h
        exact .refuse hpc hd' hz
      · next hz =>
        cases h
        exact .grant hpc hd' hz
  · next hpc =>
    split at h
    · next hn =>
      cases h
      exact .wake hpc hn
    · cases h
  · next hpc =>
    split at h
    · next hd =>
      cases h
      exact .quit hpc hd
    · next hd =>
      cases h
      exact .resume hpc (Bool.eq_false_of_not_eq_true hd)
  · next hpc =>
    cases h
    exact .take hpc
  · next siz hpc =>
    cases h
    exact .fetch hpc
  · next p siz i b hpc =>
    split at h
    · next hi =>
      cases h
      exact .stored hpc hi
    · cases h
  · next p siz bs hpc =>
    split at h
    · next hb =>
      cases h
      exact .data hpc hb.1 hb.2
    · cases h
  · next p siz hpc =>
    cases h
    exact .eof hpc
  · next p siz e hpc =>
    split at h
    · next he =>
      cases h
      exact .retry hpc he
    · next he =>
      cases h
      exact .fail hpc he
  · next n hpc =>
    cases h
    exact .commit hpc
  · next n hpc =>
    split at h
    · next hv =>
      cases h
      exact .relock hpc hv
    · cases h
  · next n hpc =>
    dsimp only at h
    split at h
    · next hw =>
      split at h
      · next hz =>
        cases h
        exact .publishNone hpc hw hz
      · next hz =>
        cases h
        exact .publishGrant hpc hw hz
    · next hw =>
      cases h
      exact .publish hpc (Bool.eq_false_of_not_eq_true hw)
  · next hpc =>
    cases h
    exact .post hpc
  · next hpc =>
    cases h
    exact .outLog hpc
  · next hpc =>
    cases h
    exact .outAbrt hpc
  · next hpc =>
    cases h
    exact .outDone hpc
  · next hpc =>
    cases h
    exact .outPost hpc
  · cases h

/-- The outcomes of one step of `task_writer`. -/
inductive WStep (opts : OptionsS) (s : Sys) : Io → Sys → Prop
  /-- The open call succeeded. -/
  | opened (hpc : s.wpc=.opening) : WStep opts s (.opened true) {s with wpc := .lock}
  /-- The open call failed. -/
  | unopened (hpc : s.wpc=.opening) :
    WStep opts s (.opened false) {s with wpc := .releasing (.mark .errlog)}
  /-- A statement of `release` that is not its last. -/
  | releasing {p q : RelPc} {g : ShrS} (hpc : s.wpc=.releasing p)
    (hr : release (errIni+Role.writer.idx) s.shm p=(g,some q)) :
    WStep opts s .tau {s with shm := g,wpc := .releasing q}
  /-- The last statement of `release`. -/
  | released {p : RelPc} {g : ShrS} (hpc : s.wpc=.releasing p)
    (hr : release (errIni+Role.writer.idx) s.shm p=(g,none)) :
    WStep opts s .tau {s with shm := g,wpc := .ended}
  /-- The mutex was free. -/
  | lock (hpc : s.wpc=.lock) (hv : s.shm.vars=none) :
    WStep opts s .tau {s with shm := {s.shm with vars := some .writer},wpc := .top}
  /-- The loop ends. -/
  | stop (hpc : s.wpc=.top) (hd : s.shm.done=true) :
    WStep opts s .tau {s with shm := {s.shm with vars := none},wpc := .outPost}
  /-- No data: announce a wait. -/
  | refuse (hpc : s.wpc=.top) (hd : s.shm.done=false) (hz : (bufCanW s.shm.buf).1=0) :
    WStep opts s .tau
      {s with
        shm := {s.shm with buf := (bufCanW s.shm.buf).2,swait := true,vars := none}
        wpc := .wait
        handW := s.handW++[.wait]}
  /-- A grant of its own. -/
  | grant (hpc : s.wpc=.top) (hd : s.shm.done=false) (hz : (bufCanW s.shm.buf).1≠0) :
    WStep opts s .tau
      {s with
        shm := {s.shm with buf := (bufCanW s.shm.buf).2,vars := none}
        wpc := .fetch (bufCanW s.shm.buf).1}
  /-- The wait takes a post. -/
  | wake (hpc : s.wpc=.wait) (hn : 0<s.shm.nodata) :
    WStep opts s .tau {s with shm := {s.shm with nodata := s.shm.nodata-1},wpc := .woken}
  /-- Woken to leave. -/
  | quit (hpc : s.wpc=.woken) (hd : s.shm.done=true) : WStep opts s .tau {s with wpc := .outPost}
  /-- Woken to go on. -/
  | resume (hpc : s.wpc=.woken) (hd : s.shm.done=false) : WStep opts s .tau {s with wpc := .take}
  /-- The stored grant is used. -/
  | take (hpc : s.wpc=.take) :
    WStep opts s .tau {s with wpc := .fetch s.shm.xwsiz,handW := s.handW++[.use s.shm.xwsiz]}
  /-- The area of a grant is fetched. -/
  | fetch {siz : ℕ} (hpc : s.wpc=.fetch siz) :
    WStep opts s .tau
      {s with
        shm := {s.shm with buf := (bufFetchW s.shm.buf siz).2}
        tr := {s.tr with
          reqs := s.tr.reqs++[loadAt (bufFetchW s.shm.buf siz).2 (bufFetchW s.shm.buf siz).1 siz]}
        wpc := .writing (bufFetchW s.shm.buf siz).1 siz}
  /-- The write call accepts a number of bytes. -/
  | wrote {p : Ptr} {siz n : ℕ} (hpc : s.wpc=.writing p siz) (hn : n ≤ siz) :
    WStep opts s (.wrote n)
      {s with tr := {s.tr with out := s.tr.out++loadAt s.shm.buf p n},wpc := .commit n}
  /-- The write call was interrupted and is made again. -/
  | retry {p : Ptr} {siz e : ℕ} (hpc : s.wpc=.writing p siz)
    (he : e=eintr ∧ s.shm.done=false) : WStep opts s (.werr e) s
  /-- The write call failed for good. -/
  | fail {p : Ptr} {siz e : ℕ} (hpc : s.wpc=.writing p siz)
    (he : ¬(e=eintr ∧ s.shm.done=false)) :
    WStep opts s (.werr e)
      {s with shm := {s.shm with errW := e},tr := {s.tr with wfail := true},wpc := .outLog}
  /-- The write is counted. -/
  | commit {n : ℕ} (hpc : s.wpc=.commit n) :
    WStep opts s .tau {s with shm := {s.shm with buf := bufCommitW s.shm.buf n},wpc := .relock n}
  /-- The mutex was free. -/
  | relock {n : ℕ} (hpc : s.wpc=.relock n) (hv : s.shm.vars=none) :
    WStep opts s .tau {s with shm := {s.shm with vars := some .writer},wpc := .publish n}
  /-- The write is released; the reader does not wait. -/
  | publish {n : ℕ} (hpc : s.wpc=.publish n) (hw : s.shm.mwait=false) :
    WStep opts s .tau
      {s with
        shm := {s.shm with buf := bufCommitWf s.shm.buf n}
        tr := {s.tr with cout := s.tr.cout+n}
        wpc := .top}
  /-- The write is released; the waiting reader gets nothing. -/
  | publishNone {n : ℕ} (hpc : s.wpc=.publish n) (hw : s.shm.mwait=true)
    (hz : (bufCanR (bufCommitWf s.shm.buf n)).1=0) :
    WStep opts s .tau
      {s with
        shm := {s.shm with buf := (bufCanR (bufCommitWf s.shm.buf n)).2}
        tr := {s.tr with cout := s.tr.cout+n}
        wpc := .top}
  /-- The write is released; the waiting reader is handed a grant. -/
  | publishGrant {n : ℕ} (hpc : s.wpc=.publish n) (hw : s.shm.mwait=true)
    (hz : (bufCanR (bufCommitWf s.shm.buf n)).1≠0) :
    WStep opts s .tau
      {s with
        shm := {s.shm with
          buf := (bufCanR (bufCommitWf s.shm.buf n)).2
          mwait := false
          xrsiz := (bufCanR (bufCommitWf s.shm.buf n)).1}
        tr := {s.tr with cout := s.tr.cout+n}
        wpc := .post
        handR := s.handR++[.grant (bufCanR (bufCommitWf s.shm.buf n)).1]}
  /-- The hand-over is posted. -/
  | post (hpc : s.wpc=.post) :
    WStep opts s .tau {s with shm := {s.shm with nospace := s.shm.nospace+1},wpc := .top}
  /-- The failure is logged. -/
  | outLog (hpc : s.wpc=.outLog) :
    WStep opts s .tau
      {s with
        shm := {s.shm with
          errlog := Function.update s.shm.errlog (errErr+Role.writer.idx) true}
        wpc := .outAbrt}
  /-- The failure raises `abrt`. -/
  | outAbrt (hpc : s.wpc=.outAbrt) :
    WStep opts s .tau {s with shm := {s.shm with abrt := true},wpc := .outDone}
  /-- The failure raises `done`. -/
  | outDone (hpc : s.wpc=.outDone) :
    WStep opts s .tau {s with shm := {s.shm with done := true},wpc := .outPost}
  /-- Leaving posts `nospace`. -/
  | outPost (hpc : s.wpc=.outPost) :
    WStep opts s .tau {s with shm := {s.shm with nospace := s.shm.nospace+1},wpc := .chkAbrt}
  /-- The epilogue is skipped. -/
  | skip (hpc : s.wpc=.chkAbrt) (ha : s.shm.abrt=true) : WStep opts s .tau {s with wpc := .ended}
  /-- The epilogue is entered. -/
  | enter (hpc : s.wpc=.chkAbrt) (ha : s.shm.abrt=false) :
    WStep opts s .tau {s with wpc := .epi .setlinew}
  /-- A step inside the epilogue. -/
  | epi {p q : EpiPc} {io : Io} {g : ShrS} {t : Trace} (hpc : s.wpc=.epi p)
    (he : EpiStep opts s.shm s.tr p io g t (.inl q)) :
    WStep opts s io {s with shm := g,tr := t,wpc := .epi q}
  /-- The epilogue has failed. -/
  | epiFail {p : EpiPc} {io : Io} {g : ShrS} {t : Trace} (hpc : s.wpc=.epi p)
    (he : EpiStep opts s.shm s.tr p io g t (.inr true)) :
    WStep opts s io {s with shm := g,tr := t,wpc := .errLog}
  /-- The epilogue has drained the buffer. -/
  | epiEnd {p : EpiPc} {io : Io} {g : ShrS} {t : Trace} (hpc : s.wpc=.epi p)
    (he : EpiStep opts s.shm s.tr p io g t (.inr false)) :
    WStep opts s io {s with shm := g,tr := t,wpc := .ended}
  /-- The failed epilogue is logged. -/
  | errLog (hpc : s.wpc=.errLog) :
    WStep opts s .tau
      {s with
        shm := {s.shm with
          errlog := Function.update s.shm.errlog (errErr+Role.writer.idx) true}
        wpc := .ended}

/-- The executable writer does nothing else. -/
theorem writerStep_cases {opts : OptionsS} {s t : Sys} {io : Io}
    (h : writerStep opts s io=some t) : WStep opts s io t := by
  unfold writerStep at h
  split at h
  · next hpc =>
    cases h
    exact .opened hpc
  · next hpc =>
    cases h
    exact .unopened hpc
  · next p hpc =>
    cases h
    cases hr : release (errIni+Role.writer.idx) s.shm p with
    | mk g next =>
      cases next with
      | some q => exact .releasing hpc hr
      | none => exact .released hpc hr
  · next hpc =>
    split at h
    · next hv =>
      cases h
      exact .lock hpc hv
    · cases h
  · next hpc =>
    split at h
    · next hd =>
      cases h
      exact .stop hpc hd
    · next hd =>
      have hd' := Bool.eq_false_of_not_eq_true hd
      dsimp only at h
      split at h
      · next hz =>
        cases h
        exact .refuse hpc hd' hz
      · next hz =>
        cases h
        exact .grant hpc hd' hz
  · next hpc =>
    split at h
    · next hn =>
      cases h
      exact .wake hpc hn
    · cases h
  · next hpc =>
    split at h
    · next hd =>
      cases h
      exact .quit hpc hd
    · next hd =>
      cases h
      exact .resume hpc (Bool.eq_false_of_not_eq_true hd)
  · next hpc =>
    cases h
    exact .take hpc
  · next siz hpc =>
    cases h
    exact .fetch hpc
  · next p siz n hpc =>
    split at h
    · next hn =>
      cases h
      exact .wrote hpc hn
    · cases h
  · next p siz e hpc =>
    split at h
    · next he =>
      cases h
      exact .retry hpc he
    · next he =>
      cases h
      exact .fail hpc he
  · next n hpc =>
    cases h
    exact .commit hpc
  · next n hpc =>
    split at h
    · next hv =>
      cases h
      exact .relock hpc hv
    · cases h
  · next n hpc =>
    dsimp only at h
    split at h
    · next hw =>
      split at h
      · next hz =>
        cases h
        exact .publishNone hpc hw hz
      · next hz =>
        cases h
        exact .publishGrant hpc hw hz
    · next hw =>
      cases h
      exact .publish hpc (Bool.eq_false_of_not_eq_true hw)
  · next hpc =>
    cases h
    exact .post hpc
  · next hpc =>
    cases h
    exact .outLog hpc
  · next hpc =>
    cases h
    exact .outAbrt hpc
  · next hpc =>
    cases h
    exact .outDone hpc
  · next hpc =>
    cases h
    exact .outPost hpc
  · next hpc =>
    split at h
    · next ha =>
      cases h
      exact .skip hpc ha
    · next ha =>
      cases h
      exact .enter hpc (Bool.eq_false_of_not_eq_true ha)
  · next p _ hpc =>
    split at h
    · cases h
    · next g t q he =>
      cases h
      exact .epi hpc (transferWriterEpi_cases he)
    · next g t failed he =>
      cases h
      cases failed with
      | true => exact .epiFail hpc (transferWriterEpi_cases he)
      | false => exact .epiEnd hpc (transferWriterEpi_cases he)
  · next hpc =>
    cases h
    exact .errLog hpc
  · cases h

end Yancat.TwoTask
