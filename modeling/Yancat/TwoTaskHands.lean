import Yancat.TwoTaskFlags

/-!
# Either task as one side of a hand-over

The waits of the reading task, the grants that the writing task stores for it
and the semaphore between them are one side of a hand-over, and the other way
round. Every step of the system is a run of either side.
-/

namespace Yancat.TwoTask

open Buffer Setup Shared Transition FailureFlags Handover
open Relation (ReflTransGen)

/-- Position of the reading task in its hand-over. -/
@[simp] def RPc.hand : RPc → Pos
  | .wait => .waiting
  | .woken => .woken
  | .take => .using
  | .outDone => .left
  | .outPost => .left
  | .ended => .left
  | _ => .away

/-- Position of the writing task in its hand-over. -/
@[simp] def WPc.hand : WPc → Pos
  | .wait => .waiting
  | .woken => .woken
  | .take => .using
  | .outPost => .left
  | .chkAbrt => .left
  | .epi _ => .left
  | .errLog => .left
  | .ended => .left
  | _ => .away

/-- The reading task has posted `nodata` for the last time. -/
@[simp] def RPc.retired : RPc → Bool
  | .ended => true
  | .releasing .nospace => true
  | _ => false

/-- The writing task has posted `nospace` for the last time. -/
@[simp] def WPc.retired : WPc → Bool
  | .chkAbrt => true
  | .epi _ => true
  | .errLog => true
  | .ended => true
  | _ => false

/-- The reading task waits and the writing task answers. -/
def sideR (s : Sys) : Side ℕ where
  pos := s.rpc.hand
  flag := s.shm.mwait
  tokens := s.shm.nospace
  posting := decide (s.wpc=.post)
  retired := s.wpc.retired
  done := s.shm.done
  slot := s.shm.xrsiz
  log := s.handR

/-- The writing task waits and the reading task answers. -/
def sideW (s : Sys) : Side ℕ where
  pos := s.wpc.hand
  flag := s.shm.swait
  tokens := s.shm.nodata
  posting := decide (s.rpc=.post)
  retired := s.rpc.retired
  done := s.shm.done
  slot := s.shm.xwsiz
  log := s.handW

variable {opts : OptionsS} {s t : Sys} {io : Io} {a : Act}

/-- A step that one side does not see. -/
theorem unseen {α : Type*} {x y : Side α} (h : x=y) : ReflTransGen Handover.Step x y := by
  rw [h]

/-- A step that one side sees as its own. -/
theorem seen {α : Type*} {x y z : Side α} (h : Handover.Step x z) (he : z=y) :
    ReflTransGen Handover.Step x y := by
  rw [←he]
  exact .single h

/-- Before its last statement `release` has not posted `nodata`. -/
theorem releasing_retired {p : RelPc} (hp : p≠.nospace) : (RPc.releasing p).retired=false := by
  cases p with
  | nospace => exact absurd rfl hp
  | _ => rfl

/-- Reading steps, seen from the reading task's side. -/
theorem RStep.seenR (hi : FlagInv s) (h : RStep s io t) :
    ReflTransGen Handover.Step (sideR s) (sideR t) := by
  have hrd := hi.reader
  have haway : s.rpc.hand=.away →
      ReflTransGen Handover.Step (sideR s) {sideR s with pos := .left} :=
    fun hp => .single (.leave (.inl hp))
  cases h with
  | releasing hpc hr =>
    rw [hpc] at hrd
    cases release_cases hrd hr with
    | mark _ _ hd => exact seen (.outside hd (le_refl _) (.inr rfl)) (by simp [sideR,hpc])
    | nodata hd => exact unseen (by simp [sideR,hpc])
  | released hpc hr =>
    rw [hpc] at hrd
    cases release_cases hrd hr with
    | nospace hd =>
      have hpost : Handover.Step {sideR s with pos := .left} _ :=
        .outside id (Nat.le_succ s.shm.nospace) (.inl hd)
      exact (haway (by simp [hpc])).trans (seen hpost (by simp [sideR]))
  | stop hpc hd => exact seen (.leave (.inl (by simp [sideR,hpc]))) (by simp [sideR])
  | refuse hpc hd hz => exact seen (.announce (by simp [sideR,hpc]) hd) (by simp [sideR])
  | wake hpc hn => exact seen (.wake (by simp [sideR,hpc]) hn) (by simp [sideR])
  | quit hpc hd => exact seen (.leave (.inr ⟨by simp [sideR,hpc],hd⟩)) (by simp [sideR])
  | resume hpc hd => exact seen (.resume (by simp [sideR,hpc]) hd) (by simp [sideR])
  | take hpc => exact seen (.use (by simp [sideR,hpc])) (by simp [sideR])
  | eof hpc => exact seen (.leave (.inl (by simp [sideR,hpc]))) (by simp [sideR])
  | outAbrt hpc => exact seen (.leave (.inl (by simp [sideR,hpc]))) (by simp [sideR])
  | outDone hpc =>
    exact seen (.outside (fun _ => rfl) (le_refl s.shm.nospace) (.inr rfl)) (by simp [sideR,hpc])
  | _ hpc => exact unseen (by simp [sideR,hpc])

/-- Reading steps, seen from the writing task's side. -/
theorem RStep.seenW (hi : FlagInv s) (h : RStep s io t) :
    ReflTransGen Handover.Step (sideW s) (sideW t) := by
  have hrd := hi.reader
  cases h with
  | releasing hpc hr =>
    rw [hpc] at hrd
    cases release_cases hrd hr with
    | mark hp hq hd =>
      exact seen (.outside hd (le_refl s.shm.nodata) (.inr rfl))
        (by simp [sideW,hpc,-RPc.retired,releasing_retired hp,releasing_retired hq])
    | nodata hd => exact seen (.retire hd) (by simp [sideW,hpc])
  | released hpc hr =>
    rw [hpc] at hrd
    cases release_cases hrd hr with
    | nospace hd => exact unseen (by simp [sideW,hpc])
  | @publishGrant n hpc hw hz =>
    exact seen (.grant (bufCanW (bufCommitRf s.shm.buf n)).1 hw (by simp [sideW,hpc]))
      (by simp [sideW,hpc])
  | post hpc => exact seen (.post (by simp [sideW,hpc])) (by simp [sideW,hpc])
  | outDone hpc =>
    exact seen (.outside (fun _ => rfl) (le_refl s.shm.nodata) (.inr rfl)) (by simp [sideW,hpc])
  | outPost hpc =>
    rw [hpc] at hrd
    exact seen (.retire hrd.1) (by simp [sideW,hpc])
  | _ hpc => exact unseen (by simp [sideW,hpc])

/-- Writing steps, seen from the writing task's side. -/
theorem WStep.seenW (hi : FlagInv s) (h : WStep opts s io t) :
    ReflTransGen Handover.Step (sideW s) (sideW t) := by
  have hwr := hi.writer
  cases h with
  | releasing hpc hr =>
    rw [hpc] at hwr
    cases release_cases hwr hr with
    | mark _ _ hd => exact seen (.outside hd (le_refl _) (.inr rfl)) (by simp [sideW,hpc])
    | nodata hd =>
      exact seen (.outside id (Nat.le_succ s.shm.nodata) (.inl hd)) (by simp [sideW,hpc])
  | released hpc hr =>
    rw [hpc] at hwr
    cases release_cases hwr hr with
    | nospace hd => exact seen (.leave (.inl (by simp [sideW,hpc]))) (by simp [sideW])
  | stop hpc hd => exact seen (.leave (.inl (by simp [sideW,hpc]))) (by simp [sideW])
  | refuse hpc hd hz => exact seen (.announce (by simp [sideW,hpc]) hd) (by simp [sideW])
  | wake hpc hn => exact seen (.wake (by simp [sideW,hpc]) hn) (by simp [sideW])
  | quit hpc hd => exact seen (.leave (.inr ⟨by simp [sideW,hpc],hd⟩)) (by simp [sideW])
  | resume hpc hd => exact seen (.resume (by simp [sideW,hpc]) hd) (by simp [sideW])
  | take hpc => exact seen (.use (by simp [sideW,hpc])) (by simp [sideW])
  | outDone hpc =>
    have hraise : Handover.Step {sideW s with pos := .left} _ :=
      .outside (fun _ => rfl) (le_refl s.shm.nodata) (.inr rfl)
    exact (ReflTransGen.single (.leave (.inl (by simp [sideW,hpc])))).trans
      (seen hraise (by simp [sideW]))
  | epi hpc he =>
    obtain ⟨_,_,rfl⟩ := he.frame
    exact unseen (by simp [sideW,hpc])
  | epiFail hpc he =>
    obtain ⟨_,_,rfl⟩ := he.frame
    exact unseen (by simp [sideW,hpc])
  | epiEnd hpc he =>
    obtain ⟨_,_,rfl⟩ := he.frame
    exact unseen (by simp [sideW,hpc])
  | _ hpc => exact unseen (by simp [sideW,hpc])

/-- Writing steps, seen from the reading task's side. -/
theorem WStep.seenR (hi : FlagInv s) (h : WStep opts s io t) :
    ReflTransGen Handover.Step (sideR s) (sideR t) := by
  have hwr := hi.writer
  cases h with
  | releasing hpc hr =>
    rw [hpc] at hwr
    cases release_cases hwr hr with
    | mark _ _ hd =>
      exact seen (.outside hd (le_refl s.shm.nospace) (.inr rfl)) (by simp [sideR,hpc])
    | nodata hd => exact unseen (by simp [sideR,hpc])
  | released hpc hr =>
    rw [hpc] at hwr
    cases release_cases hwr hr with
    | nospace hd => exact seen (.retire hd) (by simp [sideR,hpc])
  | @publishGrant n hpc hw hz =>
    exact seen (.grant (bufCanR (bufCommitWf s.shm.buf n)).1 hw (by simp [sideR,hpc]))
      (by simp [sideR,hpc])
  | post hpc => exact seen (.post (by simp [sideR,hpc])) (by simp [sideR,hpc])
  | outDone hpc =>
    exact seen (.outside (fun _ => rfl) (le_refl s.shm.nospace) (.inr rfl)) (by simp [sideR,hpc])
  | outPost hpc =>
    rw [hpc] at hwr
    exact seen (.retire hwr) (by simp [sideR,hpc])
  | epi hpc he =>
    obtain ⟨_,_,rfl⟩ := he.frame
    exact unseen (by simp [sideR,hpc])
  | epiFail hpc he =>
    obtain ⟨_,_,rfl⟩ := he.frame
    exact unseen (by simp [sideR,hpc])
  | epiEnd hpc he =>
    obtain ⟨_,_,rfl⟩ := he.frame
    exact unseen (by simp [sideR,hpc])
  | _ hpc => exact unseen (by simp [sideR,hpc])

/-- Either side runs as a hand-over. -/
theorem FlagInv.seen (hi : FlagInv s) (h : TwoTask.step opts s a=some t) :
    ReflTransGen Handover.Step (sideR s) (sideR t) ∧
      ReflTransGen Handover.Step (sideW s) (sideW t) := by
  have haside : a.aside=true → _ := hi.aside h
  cases a with
  | reader io =>
    have hs := readerStep_cases h
    exact ⟨hs.seenR hi,hs.seenW hi⟩
  | writer io =>
    have hs := writerStep_cases h
    exact ⟨hs.seenR hi,hs.seenW hi⟩
  | _ =>
    obtain ⟨_,_,done,nodata,nospace,_,_,rfl,h1,h2,h3,h4⟩ := haside rfl
    exact ⟨.single (.outside h3 h2 (h4.imp_right And.right)),
      .single (.outside h3 h1 (h4.imp_right And.left))⟩

/-- The hand-over invariant of both sides. -/
structure HandInv (s : Sys) : Prop where
  /-- The reading task waits. -/
  reader : Handover.Inv (sideR s)
  /-- The writing task waits. -/
  writer : Handover.Inv (sideW s)

/-- The hand-over invariant holds in every state of every run. -/
theorem HandInv.run {buf : BufS} {ok : Sys → Act → Prop}
    (h : Run (TwoTask.step opts) ok (Sys.init buf) s) : HandInv s := by
  refine h.invariant_of (fun _ hr => FlagInv.run hr) ⟨.init 0,.init 0⟩ ?_
  intro s a t hi _ hh _ hs
  obtain ⟨hr,hw⟩ := hi.seen hs
  exact ⟨hh.reader.steps hr,hh.writer.steps hw⟩

/-- A task about to post an answer faces no task at the use of one. -/
theorem not_taking {buf : BufS} {ok : Sys → Act → Prop}
    (h : Run (TwoTask.step opts) ok (Sys.init buf) s) :
    (s.wpc=.post → s.rpc≠.take) ∧ (s.rpc=.post → s.wpc≠.take) := by
  have hrun : ((sideR s).posting=true → (sideR s).pos≠.using) ∧
      ((sideW s).posting=true → (sideW s).pos≠.using) := by
    refine h.invariant_of (J:=fun u => FlagInv u ∧ HandInv u)
      (I:=fun u => ((sideR u).posting=true → (sideR u).pos≠.using) ∧
        ((sideW u).posting=true → (sideW u).pos≠.using))
      (fun _ hr => ⟨FlagInv.run hr,HandInv.run hr⟩) ⟨fun _ => Pos.noConfusion,fun _ =>
        Pos.noConfusion⟩ ?_
    intro u a v hi _ hu _ hs
    obtain ⟨hr,hw⟩ := hi.1.seen hs
    exact ⟨hi.2.reader.unused_steps hu.1 hr,hi.2.writer.unused_steps hu.2 hw⟩
  refine ⟨fun hw hr => ?_,fun hr hw => ?_⟩
  · exact hrun.1 (decide_eq_true hw) (by rw [sideR,hr]; rfl)
  · exact hrun.2 (decide_eq_true hr) (by rw [sideW,hw]; rfl)

/-- A reader that goes on after its wait was answered. -/
theorem HandInv.resumedR (hh : HandInv s) (hpc : s.rpc=.woken) (hd : s.shm.done=false) :
    s.shm.mwait=false := by
  have hflag := hh.reader.flag
  simpa [sideR,hpc,hd] using hflag

/-- A writer that goes on after its wait was answered. -/
theorem HandInv.resumedW (hh : HandInv s) (hpc : s.wpc=.woken) (hd : s.shm.done=false) :
    s.shm.swait=false := by
  have hflag := hh.writer.flag
  simpa [sideW,hpc,hd] using hflag

end Yancat.TwoTask
