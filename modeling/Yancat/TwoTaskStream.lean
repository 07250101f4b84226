import Yancat.TwoTaskStalls

/-!
# The stream between the two tasks

The positions of both tasks determine where either side is in its current
transfer, a stored grant counting as held by the task it was stored for. Under
that reading every step of the system is made of moves of the two sides.
-/

namespace Yancat.TwoTask

open Crc Buffer Setup Shared Transition FailureFlags Handover ByteStream

/-- The reading task's position in its current transfer. -/
def RPc.phase (mwait : Bool) (xrsiz : ℕ) : RPc → RPhase
  | .wait => if mwait=true then .idle else .granted xrsiz
  | .woken => if mwait=true then .idle else .granted xrsiz
  | .take => .granted xrsiz
  | .fetch siz => .granted siz
  | .reading p siz => .fetched p siz
  | .commit n => .got n
  | .relock n => .stored n
  | .publish n => .stored n
  | .outPost => .closed
  | .ended => .closed
  | _ => .idle

/-- The writing task's position in its current transfer. -/
def WPc.phase (swait : Bool) (xwsiz : ℕ) : WPc → WPhase
  | .wait => if swait=true then .idle else .granted xwsiz
  | .woken => if swait=true then .idle else .granted xwsiz
  | .take => .granted xwsiz
  | .fetch siz => .granted siz
  | .writing p siz => .fetched p siz 0
  | .commit n => .wrote n 0
  | .relock n => .counted n 0
  | .publish n => .counted n 0
  | .epi p => EpiPc.phase p
  | _ => .idle

/-- What the stream depends on. -/
def Sys.view (s : Sys) : View :=
  ⟨s.shm.buf,s.tr,s.rpc.phase s.shm.mwait s.shm.xrsiz,s.wpc.phase s.shm.swait s.shm.xwsiz,
    s.wpc.drains⟩

/-- A call outcome in which a write accepts all it was offered. -/
def WPc.full : WPc → Io → Bool
  | .writing _ siz,.wrote n => n=siz
  | .epi p,io => p.full io
  | _,.werr _ => false
  | _,_ => true

/-- A step in which a write accepts all it was offered. -/
def fullWrites (s : Sys) : Act → Prop
  | .writer io => s.wpc.full io=true
  | _ => True

variable {opts : OptionsS} {full : Bool} {s t : Sys} {io : Io} {a : Act}

/-- A raised flag belongs to a reader that waits or has left. -/
theorem HandInv.notAwayR (hh : HandInv s) (hm : s.shm.mwait=true) :
    s.rpc.hand≠.away ∧ s.rpc.hand≠.using := by
  have haway := hh.reader.away
  refine ⟨fun he => ?_,fun he => ?_⟩
  · exact Bool.false_ne_true ((haway (.inl he)).symm.trans hm)
  · exact Bool.false_ne_true ((haway (.inr he)).symm.trans hm)

/-- A raised flag belongs to a writer that waits or has left. -/
theorem HandInv.notAwayW (hh : HandInv s) (hm : s.shm.swait=true) :
    s.wpc.hand≠.away ∧ s.wpc.hand≠.using := by
  have haway := hh.writer.away
  refine ⟨fun he => ?_,fun he => ?_⟩
  · exact Bool.false_ne_true ((haway (.inl he)).symm.trans hm)
  · exact Bool.false_ne_true ((haway (.inr he)).symm.trans hm)

/-- A grant stored for a waiting reader is held by it from then on. -/
theorem handR {buf : BufS} {tr : Trace} {wp : WPhase} {d : Bool} {rpc : RPc} {x : ℕ}
    (hz : (bufCanR buf).1≠0) (hn : rpc.hand≠.away ∧ rpc.hand≠.using) :
    Move opts full ⟨buf,tr,rpc.phase true x,wp,d⟩
      ⟨(bufCanR buf).2,tr,rpc.phase false (bufCanR buf).1,wp,d⟩ := by
  cases rpc with
  | wait => exact .grantR hz
  | woken => exact .grantR hz
  | outDone => exact .canR
  | outPost => exact .canR
  | ended => exact .canR
  | take => exact absurd rfl hn.2
  | _ => exact absurd rfl hn.1

/-- A grant stored for a waiting writer is held by it from then on. -/
theorem handW {buf : BufS} {tr : Trace} {rp : RPhase} {wpc : WPc} {x : ℕ}
    (hz : (bufCanW buf).1≠0) (hn : wpc.hand≠.away ∧ wpc.hand≠.using) :
    Move opts full ⟨buf,tr,rp,wpc.phase true x,wpc.drains⟩
      ⟨(bufCanW buf).2,tr,rp,wpc.phase false (bufCanW buf).1,wpc.drains⟩ := by
  cases wpc with
  | wait => exact .grantW hz
  | woken => exact .grantW hz
  | outPost => exact .canW
  | chkAbrt => exact .canW
  | epi p => exact .canW
  | errLog => exact .canW
  | ended => exact .canW
  | take => exact absurd rfl hn.2
  | _ => exact absurd rfl hn.1

/-- A step of the reading task is made of moves. -/
theorem RStep.moves (h : RStep s io t) (hh : HandInv s) :
    Moves opts full s.view t.view := by
  unfold Sys.view
  cases h with
  | releasing hpc hr =>
    obtain ⟨_,_,_,_,_,rfl⟩ := release_frame hr
    rw [hpc]
    exact .refl
  | released hpc hr =>
    obtain ⟨_,_,_,_,_,rfl⟩ := release_frame hr
    rw [hpc]
    exact .single .close
  | refuse hpc hd hz =>
    rw [hpc]
    exact .single .canR
  | grant hpc hd hz =>
    rw [hpc]
    exact .single (.grantR hz)
  | quit hpc hd =>
    rw [hpc]
    cases s.shm.mwait with
    | true => exact .refl
    | false => exact .single .dropR
  | resume hpc hd =>
    rw [hpc,hh.resumedR hpc hd]
    exact .refl
  | fetch hpc =>
    rw [hpc]
    exact .single .fetchR
  | @stored p siz i b hpc hi =>
    have hle : i+[b].length ≤ siz := hi
    dsimp only
    rw [hpc]
    exact .single (.stored hle)
  | data hpc hpos hle =>
    rw [hpc]
    exact .single (.data hpos hle)
  | eof hpc =>
    rw [hpc]
    exact .head .abandonR (.single .note)
  | retry hpc he => exact .refl
  | fail hpc he =>
    rw [hpc]
    exact .head .abandonR (.single .note)
  | commit hpc =>
    rw [hpc]
    exact .single .commitR
  | publish hpc hw =>
    rw [hpc]
    exact .single .commitRf
  | publishNone hpc hw hz =>
    rw [hpc]
    exact .head .commitRf (.single .canW)
  | publishGrant hpc hw hz =>
    rw [hpc,hw]
    exact .head .commitRf (.single (handW hz (hh.notAwayW hw)))
  | outDone hpc =>
    rw [hpc]
    exact .single .close
  | _ hpc =>
    rw [hpc]
    exact .refl

/-- A closed reading task has a closed position. -/
theorem RPc.closed_phase {rpc : RPc} (hc : rpc.closed=true) (m : Bool) (x : ℕ) :
    rpc.phase m x=.closed := by
  rcases RPc.closed_iff.mp hc with h|h <;> rw [h] <;> rfl

/-- A step of the epilogue is made of moves. -/
theorem FlagInv.epi_moves {p : EpiPc} {next : EpiPc⊕Bool} {g : ShrS} {tr : Trace} {w : WPc}
    (hi : FlagInv s) (hpc : s.wpc=.epi p) (he : EpiStep opts s.shm s.tr p io g tr next)
    (hf : full=true → s.wpc.full io=true)
    (hw : ∀ b x,w.phase b x=next.elim EpiPc.phase fun _ => .idle) (hd : w.drains=true) :
    Moves opts full s.view (Sys.view {s with shm := g,tr := tr,wpc := w}) := by
  have hwr := hi.writer
  rw [hpc] at hwr hf
  have hm := he.moves hf
  unfold Sys.view
  dsimp only
  rw [RPc.closed_phase hwr.2,RPc.closed_phase hwr.2,hw,hd,hpc]
  exact hm

/-- A step of the writing task is made of moves. -/
theorem WStep.moves (h : WStep opts s io t) (hf : FlagInv s) (hh : HandInv s)
    (hfull : full=true → s.wpc.full io=true) : Moves opts full s.view t.view := by
  cases h with
  | epi hpc he => exact hf.epi_moves hpc he hfull (fun _ _ => rfl) rfl
  | epiFail hpc he => exact hf.epi_moves hpc he hfull (fun _ _ => rfl) rfl
  | epiEnd hpc he => exact hf.epi_moves hpc he hfull (fun _ _ => rfl) rfl
  | releasing hpc hr =>
    obtain ⟨_,_,_,_,_,rfl⟩ := release_frame hr
    unfold Sys.view
    rw [hpc]
    exact .refl
  | released hpc hr =>
    obtain ⟨_,_,_,_,_,rfl⟩ := release_frame hr
    unfold Sys.view
    rw [hpc]
    exact .single .leave
  | refuse hpc hd hz =>
    unfold Sys.view
    rw [hpc]
    exact .single .canW
  | grant hpc hd hz =>
    unfold Sys.view
    rw [hpc]
    exact .single (.grantW hz)
  | quit hpc hd =>
    unfold Sys.view
    rw [hpc]
    cases s.shm.swait with
    | true => exact .refl
    | false => exact .single .dropW
  | resume hpc hd =>
    unfold Sys.view
    rw [hpc,hh.resumedW hpc hd]
    exact .refl
  | fetch hpc =>
    unfold Sys.view
    rw [hpc]
    exact .single .fetchW
  | @wrote p siz n hpc hn =>
    unfold Sys.view
    rw [hpc] at hfull ⊢
    exact .single (.wrote (z:=0) hn (le_refl 0) (fun h => absurd h (lt_irrefl 0))
      fun h => of_decide_eq_true (hfull h))
  | retry hpc he => exact .refl
  | fail hpc he =>
    unfold Sys.view
    rw [hpc] at hfull ⊢
    have hn : full=false := Bool.eq_false_of_not_eq_true fun h => Bool.false_ne_true (hfull h)
    exact .head (.abandonW hn) (.single .note)
  | commit hpc =>
    unfold Sys.view
    rw [hpc]
    exact .single (.commitW (z:=0))
  | publish hpc hw =>
    unfold Sys.view
    rw [hpc]
    exact .single (.commitWf (z:=0))
  | publishNone hpc hw hz =>
    unfold Sys.view
    rw [hpc]
    exact .head (.commitWf (z:=0)) (.single .canR)
  | publishGrant hpc hw hz =>
    unfold Sys.view
    rw [hpc,hw]
    exact .head (.commitWf (z:=0)) (.single (handR hz (hh.notAwayR hw)))
  | skip hpc ha =>
    unfold Sys.view
    rw [hpc]
    exact .single .leave
  | enter hpc ha =>
    unfold Sys.view
    rw [hpc]
    exact .single .leave
  | _ hpc =>
    unfold Sys.view
    rw [hpc]
    exact .refl

/-- A run of the system is made of moves, whatever the interleaving. -/
theorem view_moves {buf : BufS} {ok : Sys → Act → Prop}
    (hf : full=true → ∀ s a,ok s a → fullWrites s a)
    (h : Run (step opts) ok (Sys.init buf) s) : Moves opts full (.init buf) s.view := by
  refine h.invariant_of (J:=fun s => FlagInv s ∧ HandInv s)
    (I:=fun s => Moves opts full (.init buf) s.view)
    (fun _ hr => ⟨FlagInv.run hr,HandInv.run hr⟩) .refl ?_
  rintro s a t ⟨hfl,hh⟩ _ hi ha hs
  refine hi.trans ?_
  cases a with
  | reader io => exact (readerStep_cases hs).moves hh
  | writer io => exact (writerStep_cases hs).moves hfl hh fun hn => hf hn s _ ha
  | _ =>
    obtain ⟨_,_,_,_,_,_,_,rfl,_⟩ := hfl.aside hs rfl
    exact .refl

/-- The stream invariant holds in every state of every run with a block-mode
reader. -/
theorem view_data (cfg : Config) (hb : cfg.opts.rline=false) {ok : Sys → Act → Prop}
    (h : Run (step cfg.opts) ok (Sys.init cfg.buf) s) :
    s.tr.cin ≤ s.tr.inp.length ∧
      StreamInv cfg.opts s.shm.buf (flow s.tr) (s.rpc.phase s.shm.mwait s.shm.xrsiz)
        (s.wpc.phase s.shm.swait s.shm.xwsiz) :=
  have hm : Moves cfg.opts false (.init cfg.buf) s.view := view_moves nofun h
  have hi := DataInv.moves cfg (.inl hb) hm
  ⟨hi.cin_le,hi.stream⟩

/-- The bytes from the read index on that the reading task has been granted
and may be filling. -/
def Sys.regionR (s : Sys) : ℕ := (s.rpc.phase s.shm.mwait s.shm.xrsiz).extent

/-- The bytes from the write index on that the writing task has been granted
and may be writing out. -/
def Sys.regionW (s : Sys) : ℕ := (s.wpc.phase s.shm.swait s.shm.xwsiz).extent

/-- A position is closed only when the task is. -/
theorem RPc.phase_closed {rpc : RPc} {m : Bool} {x : ℕ} (h : rpc.phase m x=.closed) :
    rpc.closed=true := by
  cases rpc with
  | wait => cases m <;> cases h
  | woken => cases m <;> cases h
  | outPost => rfl
  | ended => rfl
  | _ => cases h

/-- Stream integrity of the two tasks with a block-mode reader, in every
reachable state: the fill is what was committed in and not yet out; the region
being filled is disjoint from all unread cells, the block being written out
among them; the unread cells hold the bytes in between; and the output is the
input in order, followed by padding only after its end. -/
theorem two_task_stream (cfg : Config) (hb : cfg.opts.rline=false) {s : Sys}
    (h : Reach (step cfg.opts) (Sys.init cfg.buf) s) :
    (s.tr.cin=s.tr.cout+fill s.shm.buf ∧ fill s.shm.buf<s.shm.buf.size) ∧
    (∀ i<s.regionR,∀ j<fill s.shm.buf,
      RingWindow.ringCell s.shm.buf.size s.shm.buf.got i≠
        RingWindow.ringCell s.shm.buf.size s.shm.buf.did j) ∧
    s.regionW≤fill s.shm.buf ∧
    RingWindow.window s.shm.buf.size s.shm.buf.did (fill s.shm.buf) s.shm.buf.ptr=
      (s.tr.inp.take s.tr.cin).drop s.tr.cout ∧
    ∃ k z,s.tr.out=s.tr.inp.take k++List.replicate z 0 ∧ k ≤ s.tr.cin ∧
      (0<z → s.rpc.closed=true ∧ k=s.tr.inp.length ∧ z<cfg.opts.wblk ∧
        cfg.opts.strict=true) := by
  obtain ⟨hcin,hst⟩ := view_data cfg hb h
  have hi : DataInv cfg.opts s.view := ⟨hcin,hst⟩
  have hcount : (flow s.tr).sent.length=s.tr.cout+fill s.shm.buf := hst.count
  rw [flow_sent_length s.tr hcin] at hcount
  obtain ⟨k,z,ho,hk,hz⟩ := hi.output
  exact ⟨⟨hcount,hst.ok.fill_lt⟩,fun i hi j hj => hst.disjoint hi hj,hst.extent_le,hst.ring,k,z,ho,
    hk,fun hp => ⟨RPc.phase_closed (hz hp).1,(hz hp).2⟩⟩

/-- Two bytes read and not yet published. -/
theorem two_task_stream_pending :
    ∃ s,Reach (step (small false false).opts) (Sys.init (small false false).buf) s ∧
      s.rpc=.publish 2 ∧ s.tr.cin=s.tr.cout+fill s.shm.buf := by
  obtain ⟨s,hr,hpc⟩ := exec_reach (by rfl :
    (exec (step (small false false).opts) (Sys.init (small false false).buf)
      [.reader (.opened true),.reader .tau,.reader .tau,.reader .tau,.reader (.data [1,2]),
       .reader .tau,.reader .tau]).map Sys.rpc=some (.publish 2))
  exact ⟨s,hr,hpc,(two_task_stream (small false false) rfl hr).1.1⟩

/-- Wake-up grants with a block-mode reader, in every reachable state: before
`done` at most one post is outstanding on either semaphore; a task that came
back from its semaphore and found `done` clear is about to use a value that is
not zero, that was stored after it announced this very wait and not used
since, and that still fits; and no value was ever used otherwise. -/
theorem two_task_grants (cfg : Config) (hb : cfg.opts.rline=false) {s : Sys}
    (h : Reach (step cfg.opts) (Sys.init cfg.buf) s) :
    (s.shm.done=false → s.shm.nospace≤1 ∧ s.shm.nodata≤1) ∧
    (s.rpc=.take → s.shm.xrsiz≠0 ∧ (∃ pre,s.handR=pre++[.wait,.grant s.shm.xrsiz]) ∧
      s.shm.xrsiz<s.shm.buf.size-fill s.shm.buf) ∧
    (s.wpc=.take → s.shm.xwsiz≠0 ∧ (∃ pre,s.handW=pre++[.wait,.grant s.shm.xwsiz]) ∧
      s.shm.xwsiz≤fill s.shm.buf) ∧
    UsedOnce s.handR ∧ UsedOnce s.handW := by
  have hh := HandInv.run h
  have hst := (view_data cfg hb h).2
  refine ⟨fun hd => ⟨hh.reader.one hd,hh.writer.one hd⟩,fun hpc => ?_,fun hpc => ?_,
    hh.reader.used,hh.writer.used⟩
  · have hfresh := hh.reader.fresh (.inr (by simp [sideR,hpc]))
    rw [hpc] at hst
    obtain ⟨_,hpos,_,hlt⟩ := hst.reader
    exact ⟨hpos.ne',hfresh,by omega⟩
  · have hfresh := hh.writer.fresh (.inr (by simp [sideW,hpc]))
    rw [hpc] at hst
    obtain ⟨_,hpos,_,hle⟩ := hst.writer
    exact ⟨hpos.ne',hfresh,hle⟩

/-- A writer that waited for its first block is handed it. -/
theorem two_task_grants_first :
    ∃ s,Reach (step (small false false).opts) (Sys.init (small false false).buf) s ∧
      s.wpc=.take ∧ s.shm.xwsiz≠0 := by
  obtain ⟨s,hr,hpc⟩ := exec_reach (by rfl :
    (exec (step (small false false).opts) (Sys.init (small false false).buf)
      [.writer (.opened true),.writer .tau,.writer .tau,.reader (.opened true),.reader .tau,
       .reader .tau,.reader .tau,.reader (.data [1,2]),.reader .tau,.reader .tau,.reader .tau,
       .reader .tau,.writer .tau,.writer .tau]).map Sys.wpc=some .take)
  exact ⟨s,hr,hpc,((two_task_grants (small false false) rfl hr).2.2.1 hpc).1⟩

end Yancat.TwoTask
