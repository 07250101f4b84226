import Yancat.Fdpack
import Yancat.Shared

/-!
# Opening and closing of endpoints

The virtual open and close of the three kinds of endpoints, and the queue of
endpoints that a task closes on its way out. Closing makes up to two system
calls, each of which is a step of its own and may report an error. The result
of a close is handed to the caller, who does not look at it.
-/

namespace Yancat.Closing

open Shared Options Fdpack

/-- `fd_open_`: a descriptor is open already. -/
def fdOpen_ (fd : FdpackS) : Option FdpackS := if fd.fd.toInt<0 then none else some fd

/-- Keep what the system calls of an open have returned, once. -/
def keepOpened (fd : FdpackS) (res : BitVec 32) : Option FdpackS :=
  if fd.fd≠-1 then none
  else if res.toInt<0 then none
  else some {fd with fd := res}

/-- `fd_open_f`, with the result of `open`. -/
def fdOpenF : FdpackS → BitVec 32 → Option FdpackS := keepOpened

/-- `fd_open_s`, with the connected or accepted socket. -/
def fdOpenS : FdpackS → BitVec 32 → Option FdpackS := keepOpened

/-- `fd_open`, with the result of the system calls it makes. -/
def fdOpen (fd : FdpackS) (res : BitVec 32) : Option FdpackS :=
  match fd.type with
  | .fdfd => fdOpen_ fd
  | .fdfile _ => fdOpenF fd res
  | .fdsock _ _ _ => fdOpenS fd res

/-- Position in a close. -/
inductive ClosePc
  /-- At the entry. -/
  | enter
  /-- In `fsync`. -/
  | fsync
  /-- In `close`. -/
  | close
  deriving DecidableEq

/-- What a step of a close meets in its environment. -/
inductive CloseIo
  /-- No call is made. -/
  | tau
  /-- `fsync` returns, with an error number when it fails. -/
  | fsync (err : Option ℕ)
  /-- `close` returns, with an error number when it fails. -/
  | close (err : Option ℕ)
  deriving DecidableEq

/-- A call reports an error. An interrupted `close` is made again and reports
nothing yet. -/
def CloseIo.fails : CloseIo → Bool
  | .tau => false
  | .fsync err => err.isSome
  | .close none => false
  | .close (some e) => e≠eintr

/-- One step of a close that synchronises or does not. The result is the next
position, or what the close returns. -/
def closeWith (sync : Bool) (fd : FdpackS) : ClosePc → CloseIo → Option (FdpackS×(ClosePc⊕ℤ))
  | .enter,.tau =>
    if fd.fd.toInt<0 then some ({fd with fd := -1},.inr 0)
    else if sync=true then some (fd,.inl .fsync)
    else some (fd,.inl .close)
  -- the result of the call is dropped here already
  | .fsync,.fsync _ => some (fd,.inl .close)
  | .close,.close none => some ({fd with fd := -1},.inr 0)
  | .close,.close (some e) =>
    if e=eintr then some (fd,.inl .close) else some ({fd with fd := -1},.inr (-1))
  | _,_ => none

/-- One step of `fd_close_`. -/
def fdClose_ (fd : FdpackS) : ClosePc → CloseIo → Option (FdpackS×(ClosePc⊕ℤ)) :=
  closeWith fd.sync fd

/-- One step of `fd_close_s`. -/
def fdCloseS (fd : FdpackS) : ClosePc → CloseIo → Option (FdpackS×(ClosePc⊕ℤ)) :=
  closeWith false fd

/-- One step of `fd_close`. -/
def fdClose (fd : FdpackS) : ClosePc → CloseIo → Option (FdpackS×(ClosePc⊕ℤ)) :=
  match fd.type with
  | .fdsock _ _ _ => fdCloseS fd
  | _ => fdClose_ fd

/-- The outcome of an open, which a session takes from its endpoint. -/
def opensIo : Io → Bool
  | .opened _ => true
  | _ => false

/-- The endpoints of a task, and its way out. -/
structure Ends where
  /-- The input. -/
  fdi : FdpackS
  /-- The output. -/
  fdo : FdpackS
  /-- The sides that are still to be closed, the first of them now. -/
  todo : List Dir
  /-- Position in the close of the first. -/
  pc : ClosePc
  /-- An open has failed. No program step reads it. -/
  unopened : Bool
  /-- A call in a close of the output has reported an error. No program step
  reads it. -/
  unflushed : Bool

/-- Both endpoints as they were set up. -/
def Ends.init (fdi fdo : FdpackS) : Ends := ⟨fdi,fdo,[],.enter,false,false⟩

/-- The endpoint of a side. -/
def Ends.pack (e : Ends) : Dir → FdpackS
  | .inp => e.fdi
  | .out => e.fdo

/-- Replace the endpoint of a side. -/
def Ends.setPack (e : Ends) : Dir → FdpackS → Ends
  | .inp,fd => {e with fdi := fd}
  | .out,fd => {e with fdo := fd}

/-- Open a side. Returns whether that succeeded. -/
def Ends.openSide (e : Ends) (dir : Dir) (res : BitVec 32) : Bool×Ends :=
  match fdOpen (e.pack dir) res with
  | some fd => (true,e.setPack dir fd)
  | none => (false,{e with unopened := true})

/-- A step of the close in progress reports an error on the output. -/
def Ends.reports (e : Ends) (io : CloseIo) : Bool := e.todo.head?=some .out && io.fails

/-- One step of the close in progress. The result of a close is not looked at. -/
def Ends.closeStep (e : Ends) (io : CloseIo) : Option Ends :=
  match e.todo with
  | [] => none
  | dir::rest =>
    match fdClose (e.pack dir) e.pc io with
    | none => none
    | some (fd,.inl q) =>
      some {e.setPack dir fd with pc := q,unflushed := e.unflushed || e.reports io}
    | some (fd,.inr _) =>
      some {e.setPack dir fd with
        pc := .enter
        todo := rest
        unflushed := e.unflushed || e.reports io}

/-- What `cleanup_fds` closes before a child process ends, and with it before
the verdict. The main process closes after the verdict. -/
def cleanupFds : ModeT → List Dir
  | .mp => [.inp,.out]
  | _ => []

/-- A step that opens a side, which is recorded as failed exactly when it has. -/
theorem Ends.openSide_flags (e : Ends) (dir : Dir) (res : BitVec 32) :
    (e.openSide dir res).2.unopened=(e.unopened || !(e.openSide dir res).1) ∧
    (e.openSide dir res).2.unflushed=e.unflushed := by
  unfold Ends.openSide
  split
  · cases dir <;> exact ⟨(Bool.or_false _).symm,rfl⟩
  · exact ⟨(Bool.or_true _).symm,rfl⟩

/-- An endpoint that could not be opened could not be before, or not now. -/
theorem unopened_of_or {u v ok : Bool} (h : u=(v || !ok)) (hu : u=true) :
    v=true ∨ Io.opened ok=.opened false := by
  cases ok with
  | true => exact .inl ((Bool.or_false v).symm.trans (h.symm.trans hu))
  | false => exact .inr rfl

/-- A step of a close records what it reports and nothing else. -/
theorem Ends.closeStep_flags {e e' : Ends} {io : CloseIo} (h : e.closeStep io=some e') :
    e'.unopened=e.unopened ∧ e'.unflushed=(e.unflushed || e.reports io) := by
  unfold Ends.closeStep at h
  split at h
  · cases h
  · next dir rest _ =>
    split at h
    · cases h
    · cases h
      cases dir <;> exact ⟨rfl,rfl⟩
    · cases h
      cases dir <;> exact ⟨rfl,rfl⟩

/-- A close that has returned leaves no descriptor behind, whatever its calls
have reported, and one that has not leaves the endpoint alone. -/
theorem closeWith_fd {sync : Bool} {fd fd' : FdpackS} {p : ClosePc} {io : CloseIo}
    {q : ClosePc⊕ℤ} (h : closeWith sync fd p io=some (fd',q)) :
    (∃ p',q=.inl p' ∧ fd'=fd) ∨ ∃ r,q=.inr r ∧ fd'={fd with fd := -1} := by
  cases p with
  | enter =>
    cases io with
    | tau =>
      unfold closeWith at h
      by_cases hn : fd.fd.toInt<0
      · rw [if_pos hn] at h
        cases h
        exact .inr ⟨_,rfl,rfl⟩
      · rw [if_neg hn] at h
        cases sync <;> cases h <;> exact .inl ⟨_,rfl,rfl⟩
    | _ => cases h
  | fsync =>
    cases io with
    | fsync err =>
      cases h
      exact .inl ⟨_,rfl,rfl⟩
    | _ => cases h
  | close =>
    cases io with
    | close err =>
      cases err with
      | none =>
        cases h
        exact .inr ⟨_,rfl,rfl⟩
      | some e =>
        unfold closeWith at h
        dsimp only at h
        split at h
        · cases h
          exact .inl ⟨_,rfl,rfl⟩
        · cases h
          exact .inr ⟨_,rfl,rfl⟩
    | _ => cases h

/-- Every kind of endpoint is closed in that way. -/
theorem fdClose_eq (fd : FdpackS) : ∃ sync,fdClose fd=closeWith sync fd := by
  unfold fdClose
  split
  · exact ⟨false,rfl⟩
  · exact ⟨fd.sync,rfl⟩

/-- The replaced endpoint is read back, and the other one is not touched. -/
theorem Ends.pack_setPack (e : Ends) (dir d : Dir) (fd : FdpackS) :
    (e.setPack dir fd).pack d=if d=dir then fd else e.pack d := by
  cases dir <;> cases d <;> rfl

/-- The endpoints of the sides are closed, or are going to be. -/
def Ends.Settled (e : Ends) (dirs : List Dir) : Prop :=
  ∀ d∈dirs,d∈e.todo ∨ (e.pack d).fd=-1

/-- Closing settles what it takes off its queue. -/
theorem Ends.Settled.closeStep {e e' : Ends} {dirs : List Dir} {io : CloseIo}
    (hi : e.Settled dirs) (h : e.closeStep io=some e') : e'.Settled dirs := by
  intro d hd
  unfold Ends.closeStep at h
  split at h
  · cases h
  · next dir rest htodo =>
    split at h
    · cases h
    · next fd q hc =>
      cases h
      obtain ⟨sync,hsync⟩ := fdClose_eq (e.pack dir)
      rw [hsync] at hc
      have hfd : fd=e.pack dir := (closeWith_fd hc).elim (fun ⟨_,_,he⟩ => he) nofun
      refine (hi d hd).imp (fun hm => ?_) fun hn => ?_
      · cases dir <;> exact hm
      · change ((e.setPack dir fd).pack d).fd=-1
        rw [Ends.pack_setPack]
        split
        · next he =>
          rw [hfd,←he]
          exact hn
        · exact hn
    · next fd r hc =>
      cases h
      obtain ⟨sync,hsync⟩ := fdClose_eq (e.pack dir)
      rw [hsync] at hc
      have hfd : fd.fd=-1 := (closeWith_fd hc).elim nofun fun ⟨_,_,he⟩ => by rw [he]
      change d∈rest ∨ ((e.setPack dir fd).pack d).fd=-1
      rw [Ends.pack_setPack]
      by_cases he : d=dir
      · rw [if_pos he]
        exact .inr hfd
      · rw [if_neg he]
        have hm := hi d hd
        rw [htodo,List.mem_cons] at hm
        exact hm.imp_left (·.resolve_left he)

/-- With nothing left to close, settled endpoints have no descriptor. -/
theorem Ends.Settled.closed {e : Ends} {dirs : List Dir} (h : e.Settled dirs) (he : e.todo=[])
    {d : Dir} (hd : d∈dirs) : (e.pack d).fd=-1 := by
  refine (h d hd).resolve_left fun hm => ?_
  rw [he] at hm
  cases hm

end Yancat.Closing
