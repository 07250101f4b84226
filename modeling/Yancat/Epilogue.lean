import Yancat.StreamMoves

/-!
# Steps of the draining epilogue

What the epilogue keeps and what it does to the stream, for both drivers. It
runs when the reading side is closed. Once it has switched the writer to
draining, it stops only at an empty buffer.
-/

namespace Yancat.Shared

open Crc RingWindow WordArithmetic Buffer Setup ByteStream

/-- The epilogue's position in its current transfer. -/
def EpiPc.phase : EpiPc → WPhase
  | .fetch siz => .final siz
  | .writing p siz pad => .fetched p siz pad
  | .commit siz n => .wrote (min siz n) (n-siz)
  | .publish siz n => .counted (min siz n) (n-siz)
  | _ => .idle

variable {opts : OptionsS} {io : Io} {g g' : ShrS} {tr tr' : Trace} {p : EpiPc} {q : EpiPc⊕Bool}

/-- The epilogue keeps the flags and the outcome of the reads. -/
theorem EpiStep.flags (h : EpiStep opts g tr p io g' tr' q) :
    (g'.errlog=g.errlog ∧ g'.abrt=g.abrt ∧ g'.done=g.done) ∧ tr'.eof=tr.eof ∧
      tr'.rfail=tr.rfail := by
  cases h <;> exact ⟨⟨rfl,rfl,rfl⟩,rfl,rfl⟩

/-- The epilogue records a failed write exactly when it leaves with one. -/
theorem EpiStep.wfail (h : EpiStep opts g tr p io g' tr' q) :
    tr'.wfail=(tr.wfail || q.elim (fun _ => false) id) := by
  cases h with
  | fail he => exact (Bool.or_true tr.wfail).symm
  | _ => exact (Bool.or_false tr.wfail).symm

/-- The epilogue fails on a failed write only. -/
theorem EpiStep.failed (h : EpiStep opts g tr p io g' tr' (.inr true)) : io.delivers=false := by
  cases h with
  | fail he => rfl

/-- The epilogue touches the buffer and the error number. -/
theorem EpiStep.frame (h : EpiStep opts g tr p io g' tr' q) :
    ∃ buf errW,g'={g with buf := buf,errW := errW} := by
  cases h <;> exact ⟨_,_,rfl⟩

/-- The epilogue keeps the geometry. -/
theorem EpiStep.ok (h : EpiStep opts g tr p io g' tr' q) (hok : BufOk g.buf) : BufOk g'.buf := by
  cases h with
  | setlinew => exact hok.setlinew
  | drained hz => exact hok.canW
  | grant hz => exact hok.canW
  | fetch => exact (epiFetch_moved opts _ _).ok hok
  | commit => exact (bufCommitW_moved _ _).ok hok
  | publish => exact hok.commitWf _
  | _ => exact hok

/-- A call outcome in which a write accepts all it was offered. -/
def EpiPc.full : EpiPc → Io → Bool
  | .writing _ siz pad,.wrote n => n=siz+pad
  | _,.werr _ => false
  | _,_ => true

/-- The epilogue can always go on at once, with a write that accepts all it was
offered. -/
theorem epi_calm (opts : OptionsS) (g : ShrS) (tr : Trace) (p : EpiPc)
    (hpos : ∀ n,(EpiPc.phase p).asked=some n → 0<n) :
    ∃ io g' tr' q,transferWriterEpi opts io g tr p=some (g',tr',q) ∧ q≠.inl p ∧
      io.calm=true ∧ p.full io=true ∧ ∀ n,io=.wrote n → 0<n := by
  have htau : ∀ n,Io.tau=.wrote n → 0<n := fun n h => Io.noConfusion h
  have hon : ∀ {q : EpiPc},q≠p → (.inl q : EpiPc⊕Bool)≠.inl p := fun hq he => hq (Sum.inl.inj he)
  cases p with
  | top =>
    by_cases hz : (bufCanW g.buf).1=0
    · exact ⟨.tau,_,tr,.inr false,if_pos hz,Sum.inr_ne_inl,rfl,rfl,htau⟩
    · exact ⟨.tau,_,tr,_,if_neg hz,hon EpiPc.noConfusion,rfl,rfl,htau⟩
  | writing p siz pad =>
    have hsiz : 0<siz := hpos siz rfl
    refine ⟨.wrote (siz+pad),_,_,_,if_pos (le_refl _),hon EpiPc.noConfusion,rfl,
      decide_eq_true rfl,fun n h => ?_⟩
    cases h
    exact Nat.add_pos_left hsiz pad
  | _ => exact ⟨.tau,_,_,_,rfl,hon EpiPc.noConfusion,rfl,rfl,htau⟩

/-- A step of the epilogue is made of moves of the writing side, the reading
side being closed. -/
theorem EpiStep.moves {full : Bool} (h : EpiStep opts g tr p io g' tr' q)
    (hf : full=true → p.full io=true) :
    Moves opts full ⟨g.buf,tr,.closed,p.phase,true⟩
      ⟨g'.buf,tr',.closed,q.elim EpiPc.phase fun _ => .idle,true⟩ := by
  cases h with
  | setlinew => exact .single .setlinew
  | drained hz => exact .single .canW
  | grant hz => exact .single (.grantFinal hz)
  | fetch => exact .single .fetchFinal
  | @wrote p siz pad n hn =>
    have hm : Move opts full ⟨g.buf,tr,.closed,.fetched p siz pad,true⟩ _ :=
      .wrote (k:=min siz n) (z:=n-siz) (by omega) (by omega) (by omega) (fun h => by
        have hw : n=siz+pad := of_decide_eq_true (hf h)
        omega)
    rw [show min siz n+(n-siz)=n by omega] at hm
    exact .single hm
  | retry he => exact .refl
  | fail he =>
    have hn : full=false := by
      cases full with
      | false => rfl
      | true => cases hf rfl
    exact .head (.abandonW hn) (.single .note)
  | @commit siz n =>
    have hm : Move opts full ⟨g.buf,tr,.closed,.wrote (min siz n) (n-siz),true⟩ _ := .commitW
    rw [show min siz n+(n-siz)=n by omega] at hm
    exact .single hm
  | publish => exact .single .commitWf

/-- The writer is switched to draining. -/
structure Draining (buf : BufS) : Prop where
  /-- Any data suffices. -/
  wmin : buf.wmin=1
  /-- There is no resume point. -/
  wsp : buf.wsp=0
  /-- Writes are not stalled. -/
  wstall : buf.wstall=false

/-- A draining writer is refused only by an empty buffer, and never stalled. -/
theorem Draining.canW {buf : BufS} (h : Draining buf) (hok : BufOk buf) :
    (bufCanW buf).2=buf ∧ ((bufCanW buf).1=0 → fill buf=0) := by
  have hpos := hok.wblk_pos
  have hmin := h.wmin
  have hst := h.wstall
  cases bufCanW_cases buf with
  | held hs => exact absurd (hst.symm.trans hs) Bool.false_ne_true
  | resume hs => exact absurd (hst.symm.trans hs) Bool.false_ne_true
  | block _ _ hc =>
    rw [hc]
    exact ⟨rfl,fun hz => absurd hz hpos.ne'⟩
  | short _ _ hm hc =>
    rw [hc]
    exact ⟨rfl,id⟩
  | stall _ _ _ hs => exact absurd h.wsp hs
  | refuse _ _ hm _ hc =>
    rw [hc]
    exact ⟨rfl,fun _ => by omega⟩

/-- What a position of the epilogue knows of the buffer. -/
def EpiDrains (buf : BufS) : EpiPc → Prop
  | .setlinew => True
  | _ => Draining buf

/-- The epilogue drains until the buffer is empty or a write fails. -/
theorem EpiStep.draining (h : EpiStep opts g tr p io g' tr' q) (hok : BufOk g.buf)
    (hd : EpiDrains g.buf p) :
    q.elim (EpiDrains g'.buf) fun failed => failed=false → fill g'.buf=0 := by
  cases h with
  | setlinew => exact ⟨rfl,rfl,rfl⟩
  | drained hz =>
    obtain ⟨hb,hf⟩ := Draining.canW hd hok
    intro _
    dsimp only
    rw [hb]
    exact hf hz
  | grant hz =>
    change Draining (bufCanW g.buf).2
    rw [(Draining.canW hd hok).1]
    exact hd
  | @fetch siz =>
    obtain ⟨_,_,_,_,_,_,_,_,hb⟩ := epiFetch_moved opts g.buf siz
    change Draining (epiFetch opts g.buf siz).2.2
    rw [hb]
    exact ⟨hd.wmin,hd.wsp,hd.wstall⟩
  | wrote hn => exact hd
  | retry he => exact hd
  | fail he => exact nofun
  | @commit siz n =>
    obtain ⟨_,_,_,_,_,_,_,_,hb⟩ := bufCommitW_moved g.buf n
    change Draining (bufCommitW g.buf n)
    rw [hb]
    exact ⟨hd.wmin,hd.wsp,hd.wstall⟩
  | publish => exact ⟨hd.wmin,hd.wsp,hd.wstall⟩

end Yancat.Shared
