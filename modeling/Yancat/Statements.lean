import Yancat.Sections
import Yancat.TwoTaskEnds

/-!
# The mutex sections, statement by statement

Between `Pm` and `Vm` either task tests flags, runs a decision function and
stores what it decided, one statement after the other, while the other task,
the signal handlers and the third party go on outside. Here every such
statement is a step of its own. The mutex is held over two such sequences, the
sections below: publishing what was moved, up to the grant for the other task,
and the loop test, up to `Vm`; the `Vb` of a hand-over lies between them. All that
a section reads and writes is either its own or left alone by whatever can run
beside it, so that the sections are atomic.
-/

namespace Yancat.TwoTask

open Buffer Setup Shared Transition WordArithmetic
open Handover (Event)

/-- The two tasks. -/
inductive Task
  /-- `task_reader`. -/
  | reader
  /-- `task_writer`. -/
  | writer
  deriving DecidableEq

/-- Position in `buf_can_r` or `buf_can_w`. -/
inductive CanPc
  /-- At the distance of the two indexes. -/
  | dist
  /-- At the tests, with the free space or the fill. -/
  | test (x : ℕ)
  /-- About to lower the stall flag. -/
  | lower
  /-- About to raise the stall flag. -/
  | raise
  deriving DecidableEq

/-- One statement of `buf_can_r`: the next one, or the size returned. -/
def canRStmt (buf : BufS) : CanPc → BufS×(CanPc⊕ℕ)
  | .dist =>
    let dist := wordSub buf.did buf.got &&& buf.mask
    (buf,.inl (.test (if dist=0 then buf.size else dist)))
  | .test emp =>
    if buf.rstall=true then if emp<buf.rspInv then (buf,.inr 0) else (buf,.inl .lower)
    else if buf.rblk<emp then (buf,.inr buf.rblk)
    else if buf.rmin<emp then (buf,.inr emp)
    else if buf.rsp≠0 then (buf,.inl .raise)
    else (buf,.inr 0)
  | .lower => ({buf with rstall := false},.inr buf.rblk)
  | .raise => ({buf with rstall := true},.inr 0)

/-- One statement of `buf_can_w`: the next one, or the size returned. -/
def canWStmt (buf : BufS) : CanPc → BufS×(CanPc⊕ℕ)
  | .dist => (buf,.inl (.test (wordSub buf.got buf.did &&& buf.mask)))
  | .test hav =>
    if buf.wstall=true then if hav<buf.wsp then (buf,.inr 0) else (buf,.inl .lower)
    else if buf.wblk≤hav then (buf,.inr buf.wblk)
    else if buf.wmin≤hav then (buf,.inr hav)
    else if buf.wsp≠0 then (buf,.inl .raise)
    else (buf,.inr 0)
  | .lower => ({buf with wstall := false},.inr buf.wblk)
  | .raise => ({buf with wstall := true},.inr 0)

/-- Position in a section, after its first statement. -/
inductive Sec
  /-- Past the loop, about to leave the mutex. -/
  | leave
  /-- In the decision of the loop. -/
  | can (p : CanPc)
  /-- About to announce a wait. -/
  | flag
  /-- About to leave the mutex with a grant, or to wait. -/
  | unlock (siz : Option ℕ)
  /-- At the test whether the other task waits. -/
  | test
  /-- In the decision for the other task. -/
  | offer (p : CanPc)
  /-- About to take back the other task's announcement. -/
  | clear (siz : ℕ)
  /-- About to store the grant of the other task. -/
  | store (siz : ℕ)
  deriving DecidableEq

/-- The first statement of a section of `task_reader`: the loop test, or
`buf_commit_rf`. -/
def readerEnter (s : Sys) : Option (Sys×Sec) :=
  match s.rpc with
  | .top => some (s,if s.shm.done=true then .leave else .can .dist)
  | .publish n =>
    some ({s with shm.buf := bufCommitRf s.shm.buf n,tr.cin := s.tr.cin+n},.test)
  | _ => none

/-- The next statement of a section of `task_reader`. -/
def readerStmt (s : Sys) : Sec → Sys×Option Sec
  | .leave => ({s with shm.vars := none,rpc := .outDone},none)
  | .can p =>
    let r := canRStmt s.shm.buf p
    ({s with shm.buf := r.1},
      match r.2 with
      | .inl q => some (.can q)
      | .inr siz => some (if siz=0 then .flag else .unlock (some siz)))
  | .flag => ({s with shm.mwait := true,handR := s.handR++[.wait]},some (.unlock none))
  | .unlock none => ({s with shm.vars := none,rpc := .wait},none)
  | .unlock (some siz) => ({s with shm.vars := none,rpc := .fetch siz},none)
  | .test => if s.shm.swait=true then (s,some (.offer .dist)) else ({s with rpc := .top},none)
  | .offer p =>
    let r := canWStmt s.shm.buf p
    match r.2 with
    | .inl q => ({s with shm.buf := r.1},some (.offer q))
    | .inr siz =>
      if siz=0 then ({s with shm.buf := r.1,rpc := .top},none)
      else ({s with shm.buf := r.1},some (.clear siz))
  | .clear siz => ({s with shm.swait := false},some (.store siz))
  | .store siz => ({s with shm.xwsiz := siz,handW := s.handW++[.grant siz],rpc := .post},none)

/-- The first statement of a section of `task_writer`: the loop test, or
`buf_commit_wf`. -/
def writerEnter (s : Sys) : Option (Sys×Sec) :=
  match s.wpc with
  | .top => some (s,if s.shm.done=true then .leave else .can .dist)
  | .publish n =>
    some ({s with shm.buf := bufCommitWf s.shm.buf n,tr.cout := s.tr.cout+n},.test)
  | _ => none

/-- The next statement of a section of `task_writer`. -/
def writerStmt (s : Sys) : Sec → Sys×Option Sec
  | .leave => ({s with shm.vars := none,wpc := .outPost},none)
  | .can p =>
    let r := canWStmt s.shm.buf p
    ({s with shm.buf := r.1},
      match r.2 with
      | .inl q => some (.can q)
      | .inr siz => some (if siz=0 then .flag else .unlock (some siz)))
  | .flag => ({s with shm.swait := true,handW := s.handW++[.wait]},some (.unlock none))
  | .unlock none => ({s with shm.vars := none,wpc := .wait},none)
  | .unlock (some siz) => ({s with shm.vars := none,wpc := .fetch siz},none)
  | .test => if s.shm.mwait=true then (s,some (.offer .dist)) else ({s with wpc := .top},none)
  | .offer p =>
    let r := canRStmt s.shm.buf p
    match r.2 with
    | .inl q => ({s with shm.buf := r.1},some (.offer q))
    | .inr siz =>
      if siz=0 then ({s with shm.buf := r.1,wpc := .top},none)
      else ({s with shm.buf := r.1},some (.clear siz))
  | .clear siz => ({s with shm.mwait := false},some (.store siz))
  | .store siz => ({s with shm.xrsiz := siz,handR := s.handR++[.grant siz],wpc := .post},none)

/-- Statements of a decision after the next one. -/
def CanPc.left : CanPc → ℕ
  | .dist => 2
  | .test _ => 1
  | .lower => 0
  | .raise => 0

/-- Statements of a section after the next one, at most. -/
def Sec.left : Sec → ℕ
  | .leave => 0
  | .can p => p.left+2
  | .flag => 1
  | .unlock _ => 0
  | .test => 5
  | .offer p => p.left+2
  | .clear _ => 1
  | .store _ => 0

variable {opts : OptionsS} {s t : Sys} {io : Io} {a : Act} {k k' : Sec}

/-- A decision gets shorter by every statement of it. -/
theorem canRStmt_left {buf : BufS} {p q : CanPc} (h : (canRStmt buf p).2=.inl q) :
    q.left<p.left := by
  cases p with
  | dist =>
    cases h
    exact Nat.lt_succ_self _
  | test emp =>
    unfold canRStmt at h
    dsimp only at h
    split_ifs at h <;> cases h <;> exact Nat.lt_succ_self _
  | lower => cases h
  | raise => cases h

/-- A decision gets shorter by every statement of it. -/
theorem canWStmt_left {buf : BufS} {p q : CanPc} (h : (canWStmt buf p).2=.inl q) :
    q.left<p.left := by
  cases p with
  | dist =>
    cases h
    exact Nat.lt_succ_self _
  | test hav =>
    unfold canWStmt at h
    dsimp only at h
    split_ifs at h <;> cases h <;> exact Nat.lt_succ_self _
  | lower => cases h
  | raise => cases h

/-- A section of the reading task gets shorter by every statement of it. -/
theorem readerStmt_left (h : (readerStmt s k).2=some k') : k'.left<k.left := by
  cases k with
  | leave => cases h
  | can p =>
    unfold readerStmt at h
    dsimp only at h
    split at h
    · next q hq =>
      cases h
      exact Nat.add_lt_add_right (canRStmt_left hq) 2
    · cases h
      split_ifs
      · exact Nat.lt_add_left _ (Nat.lt_succ_self 1)
      · exact Nat.succ_pos _
  | flag =>
    cases h
    exact Nat.lt_succ_self _
  | unlock siz => cases siz <;> cases h
  | test =>
    unfold readerStmt at h
    dsimp only at h
    split_ifs at h
    cases h
    exact Nat.lt_succ_self _
  | offer p =>
    unfold readerStmt at h
    dsimp only at h
    split at h
    · next q hq =>
      cases h
      exact Nat.add_lt_add_right (canWStmt_left hq) 2
    · split_ifs at h
      cases h
      exact Nat.lt_add_left _ (Nat.lt_succ_self 1)
  | clear siz =>
    cases h
    exact Nat.lt_succ_self _
  | store siz => cases h

/-- A section of the writing task gets shorter by every statement of it. -/
theorem writerStmt_left (h : (writerStmt s k).2=some k') : k'.left<k.left := by
  cases k with
  | leave => cases h
  | can p =>
    unfold writerStmt at h
    dsimp only at h
    split at h
    · next q hq =>
      cases h
      exact Nat.add_lt_add_right (canWStmt_left hq) 2
    · cases h
      split_ifs
      · exact Nat.lt_add_left _ (Nat.lt_succ_self 1)
      · exact Nat.succ_pos _
  | flag =>
    cases h
    exact Nat.lt_succ_self _
  | unlock siz => cases siz <;> cases h
  | test =>
    unfold writerStmt at h
    dsimp only at h
    split_ifs at h
    cases h
    exact Nat.lt_succ_self _
  | offer p =>
    unfold writerStmt at h
    dsimp only at h
    split at h
    · next q hq =>
      cases h
      exact Nat.add_lt_add_right (canRStmt_left hq) 2
    · split_ifs at h
      cases h
      exact Nat.lt_add_left _ (Nat.lt_succ_self 1)
  | clear siz =>
    cases h
    exact Nat.lt_succ_self _
  | store siz => cases h

/-- The task that takes a step, if one does. -/
def Act.who : Act → Option Task
  | .reader _ => some .reader
  | .writer _ => some .writer
  | _ => none

/-- The task that holds the mutex. -/
def Sys.held (s : Sys) : Option Task :=
  match s.shm.vars with
  | some .reader => some .reader
  | some .writer => some .writer
  | _ => none

/-- The transfer with its mutex sections. -/
def sections (opts : OptionsS) : Sections.System Sys Act Task Sec where
  step := TwoTask.step opts
  who := Act.who
  held := Sys.held
  entry
    | .reader => .reader .tau
    | .writer => .writer .tau
  enter
    | .reader,s => readerEnter s
    | .writer,s => writerEnter s
  stmt
    | .reader,k,s => readerStmt s k
    | .writer,k,s => writerStmt s k
  left := Sec.left
  left_lt
    | .reader,_,_,_,h => readerStmt_left h
    | .writer,_,_,_,h => writerStmt_left h

/-- What is left of `buf_can_r`: the size returned and the buffer afterwards. -/
def canRRest (buf : BufS) : CanPc → ℕ×BufS
  | .dist => bufCanR buf
  | .test emp =>
    if buf.rstall=true then
      if emp<buf.rspInv then (0,buf) else (buf.rblk,{buf with rstall := false})
    else if buf.rblk<emp then (buf.rblk,buf)
    else if buf.rmin<emp then (emp,buf)
    else if buf.rsp≠0 then (0,{buf with rstall := true})
    else (0,buf)
  | .lower => (buf.rblk,{buf with rstall := false})
  | .raise => (0,{buf with rstall := true})

/-- What is left of `buf_can_w`: the size returned and the buffer afterwards. -/
def canWRest (buf : BufS) : CanPc → ℕ×BufS
  | .dist => bufCanW buf
  | .test hav =>
    if buf.wstall=true then
      if hav<buf.wsp then (0,buf) else (buf.wblk,{buf with wstall := false})
    else if buf.wblk≤hav then (buf.wblk,buf)
    else if buf.wmin≤hav then (hav,buf)
    else if buf.wsp≠0 then (0,{buf with wstall := true})
    else (0,buf)
  | .lower => (buf.wblk,{buf with wstall := false})
  | .raise => (0,{buf with wstall := true})

/-- The statements of `buf_can_r` together are the function. -/
theorem canRRest_next (buf : BufS) (p : CanPc) :
    canRRest buf p=
      match (canRStmt buf p).2 with
      | .inl q => canRRest (canRStmt buf p).1 q
      | .inr siz => (siz,(canRStmt buf p).1) := by
  cases p with
  | dist => rfl
  | test emp =>
    unfold canRStmt canRRest
    dsimp only
    split_ifs <;> rfl
  | lower => rfl
  | raise => rfl

/-- The statements of `buf_can_w` together are the function. -/
theorem canWRest_next (buf : BufS) (p : CanPc) :
    canWRest buf p=
      match (canWStmt buf p).2 with
      | .inl q => canWRest (canWStmt buf p).1 q
      | .inr siz => (siz,(canWStmt buf p).1) := by
  cases p with
  | dist => rfl
  | test hav =>
    unfold canWStmt canWRest
    dsimp only
    split_ifs <;> rfl
  | lower => rfl
  | raise => rfl

/-- What is left of a section of the reading task. -/
def readerRest (s : Sys) : Sec → Sys
  | .leave => {s with shm.vars := none,rpc := .outDone}
  | .can p =>
    let can := canRRest s.shm.buf p
    if can.1=0 then
      {s with shm := {s.shm with buf := can.2,mwait := true,vars := none},rpc := .wait,
              handR := s.handR++[.wait]}
    else {s with shm := {s.shm with buf := can.2,vars := none},rpc := .fetch can.1}
  | .flag =>
    {s with shm := {s.shm with mwait := true,vars := none},rpc := .wait,
            handR := s.handR++[.wait]}
  | .unlock none => {s with shm.vars := none,rpc := .wait}
  | .unlock (some siz) => {s with shm.vars := none,rpc := .fetch siz}
  | .test =>
    let can := bufCanW s.shm.buf
    if s.shm.swait=true then
      if can.1=0 then {s with shm.buf := can.2,rpc := .top}
      else
        {s with shm := {s.shm with buf := can.2,swait := false,xwsiz := can.1},rpc := .post,
                handW := s.handW++[.grant can.1]}
    else {s with rpc := .top}
  | .offer p =>
    let can := canWRest s.shm.buf p
    if can.1=0 then {s with shm.buf := can.2,rpc := .top}
    else
      {s with shm := {s.shm with buf := can.2,swait := false,xwsiz := can.1},rpc := .post,
              handW := s.handW++[.grant can.1]}
  | .clear siz =>
    {s with shm := {s.shm with swait := false,xwsiz := siz},rpc := .post,
            handW := s.handW++[.grant siz]}
  | .store siz => {s with shm.xwsiz := siz,rpc := .post,handW := s.handW++[.grant siz]}

/-- What is left of a section of the writing task. -/
def writerRest (s : Sys) : Sec → Sys
  | .leave => {s with shm.vars := none,wpc := .outPost}
  | .can p =>
    let can := canWRest s.shm.buf p
    if can.1=0 then
      {s with shm := {s.shm with buf := can.2,swait := true,vars := none},wpc := .wait,
              handW := s.handW++[.wait]}
    else {s with shm := {s.shm with buf := can.2,vars := none},wpc := .fetch can.1}
  | .flag =>
    {s with shm := {s.shm with swait := true,vars := none},wpc := .wait,
            handW := s.handW++[.wait]}
  | .unlock none => {s with shm.vars := none,wpc := .wait}
  | .unlock (some siz) => {s with shm.vars := none,wpc := .fetch siz}
  | .test =>
    let can := bufCanR s.shm.buf
    if s.shm.mwait=true then
      if can.1=0 then {s with shm.buf := can.2,wpc := .top}
      else
        {s with shm := {s.shm with buf := can.2,mwait := false,xrsiz := can.1},wpc := .post,
                handR := s.handR++[.grant can.1]}
    else {s with wpc := .top}
  | .offer p =>
    let can := canRRest s.shm.buf p
    if can.1=0 then {s with shm.buf := can.2,wpc := .top}
    else
      {s with shm := {s.shm with buf := can.2,mwait := false,xrsiz := can.1},wpc := .post,
              handR := s.handR++[.grant can.1]}
  | .clear siz =>
    {s with shm := {s.shm with mwait := false,xrsiz := siz},wpc := .post,
            handR := s.handR++[.grant siz]}
  | .store siz => {s with shm.xrsiz := siz,wpc := .post,handR := s.handR++[.grant siz]}

/-- The last statement of a section of the reading task. -/
theorem readerRest_last (h : (readerStmt s k).2=none) : readerRest s k=(readerStmt s k).1 := by
  cases k with
  | can p =>
    unfold readerStmt at h
    dsimp only at h
    split at h <;> cases h
  | unlock siz => cases siz <;> rfl
  | test =>
    unfold readerStmt at h ⊢
    unfold readerRest
    split_ifs at h ⊢
    rfl
  | offer p =>
    unfold readerStmt at h ⊢
    rw [readerRest,canWRest_next]
    dsimp only at h ⊢
    split at h
    · cases h
    · split_ifs at h ⊢
      rfl
  | flag => cases h
  | clear siz => cases h
  | _ => rfl

/-- Any other statement of a section of the reading task. -/
theorem readerRest_next (h : (readerStmt s k).2=some k') :
    readerRest s k=readerRest (readerStmt s k).1 k' := by
  cases k with
  | can p =>
    unfold readerStmt at h ⊢
    dsimp only at h ⊢
    rw [readerRest,canRRest_next]
    split at h
    · cases h
      rfl
    · cases h
      split_ifs <;> rfl
  | unlock siz => cases siz <;> cases h
  | test =>
    unfold readerStmt at h ⊢
    unfold readerRest
    split_ifs at h ⊢ with hw
    · cases h
      rfl
  | offer p =>
    unfold readerStmt at h ⊢
    rw [readerRest,canWRest_next]
    dsimp only at h ⊢
    split at h
    · cases h
      rfl
    · split_ifs at h ⊢
      cases h
      rfl
  | flag =>
    cases h
    rfl
  | clear siz =>
    cases h
    rfl
  | leave => cases h
  | store siz => cases h

/-- The last statement of a section of the writing task. -/
theorem writerRest_last (h : (writerStmt s k).2=none) : writerRest s k=(writerStmt s k).1 := by
  cases k with
  | can p =>
    unfold writerStmt at h
    dsimp only at h
    split at h <;> cases h
  | unlock siz => cases siz <;> rfl
  | test =>
    unfold writerStmt at h ⊢
    unfold writerRest
    split_ifs at h ⊢
    rfl
  | offer p =>
    unfold writerStmt at h ⊢
    rw [writerRest,canRRest_next]
    dsimp only at h ⊢
    split at h
    · cases h
    · split_ifs at h ⊢
      rfl
  | flag => cases h
  | clear siz => cases h
  | _ => rfl

/-- Any other statement of a section of the writing task. -/
theorem writerRest_next (h : (writerStmt s k).2=some k') :
    writerRest s k=writerRest (writerStmt s k).1 k' := by
  cases k with
  | can p =>
    unfold writerStmt at h ⊢
    dsimp only at h ⊢
    rw [writerRest,canWRest_next]
    split at h
    · cases h
      rfl
    · cases h
      split_ifs <;> rfl
  | unlock siz => cases siz <;> cases h
  | test =>
    unfold writerStmt at h ⊢
    unfold writerRest
    split_ifs at h ⊢ with hw
    · cases h
      rfl
  | offer p =>
    unfold writerStmt at h ⊢
    rw [writerRest,canRRest_next]
    dsimp only at h ⊢
    split at h
    · cases h
      rfl
    · split_ifs at h ⊢
      cases h
      rfl
  | flag =>
    cases h
    rfl
  | clear siz =>
    cases h
    rfl
  | leave => cases h
  | store siz => cases h

/-- An open section of the reading task, run to its end. -/
theorem finish_reader (opts : OptionsS) (k : Sec) (s : Sys) :
    (sections opts).finish .reader k s=readerRest s k :=
  Sections.System.finish_unique (r:=fun k s => readerRest s k) (fun _ _ h => readerRest_last h)
    fun _ _ _ h => readerRest_next h

/-- An open section of the writing task, run to its end. -/
theorem finish_writer (opts : OptionsS) (k : Sec) (s : Sys) :
    (sections opts).finish .writer k s=writerRest s k :=
  Sections.System.finish_unique (r:=fun k s => writerRest s k) (fun _ _ h => writerRest_last h)
    fun _ _ _ h => writerRest_next h

/-- The statements of a section of the reading task together are its step. -/
theorem readerEnter_step (h : readerEnter s=some (t,k)) :
    readerStep s .tau=some (readerRest t k) := by
  unfold readerEnter at h
  unfold readerStep
  split at h
  · next hpc =>
    cases h
    rw [hpc]
    dsimp only
    split_ifs with hd hz
    · rfl
    · exact congrArg some (if_pos hz).symm
    · exact congrArg some (if_neg hz).symm
  · next n hpc =>
    cases h
    rw [hpc]
    dsimp only
    split_ifs with hw hz
    · exact congrArg some ((if_pos hw).trans (if_pos hz)).symm
    · exact congrArg some ((if_pos hw).trans (if_neg hz)).symm
    · exact congrArg some (if_neg hw).symm
  · cases h

/-- The statements of a section of the writing task together are its step. -/
theorem writerEnter_step (h : writerEnter s=some (t,k)) :
    writerStep opts s .tau=some (writerRest t k) := by
  unfold writerEnter at h
  unfold writerStep
  split at h
  · next hpc =>
    cases h
    rw [hpc]
    dsimp only
    split_ifs with hd hz
    · rfl
    · exact congrArg some (if_pos hz).symm
    · exact congrArg some (if_neg hz).symm
  · next n hpc =>
    cases h
    rw [hpc]
    dsimp only
    split_ifs with hw hz
    · exact congrArg some ((if_pos hw).trans (if_pos hz)).symm
    · exact congrArg some ((if_pos hw).trans (if_neg hz)).symm
    · exact congrArg some (if_neg hw).symm
  · cases h

end Yancat.TwoTask
