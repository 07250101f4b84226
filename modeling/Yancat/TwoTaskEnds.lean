import Yancat.MoveCounts
import Yancat.SingleTaskProgress
import Yancat.TwoTaskDelivery
import Yancat.TwoTaskProgress

/-!
# The two tasks come to an end

Neither task spins. Every round of the reading task reads something, every round
of the writing task or of its epilogue releases something, and what is released
was read before, whatever the reader's mode. With a finite input this bounds the
number of statements of both tasks under every interleaving, and since no state
is stuck the tasks end.
-/

namespace Yancat.TwoTask

open Buffer Setup Shared Transition ByteStream
open SingleTask (heldEpi EpiStep_inp)

/-- An input of at most a number of bytes, and an output that accepts at least
one byte of every write. -/
def feeds (bytes : ℕ) (s : Sys) : Act → Prop
  | .reader (.data bs) => s.tr.inp.length+bs.length≤bytes
  | .writer (.wrote n) => 0<n
  | _ => True

/-- Both positions. -/
def Sys.pcs (s : Sys) : RPc×WPc := (s.rpc,s.wpc)

/-- Both tasks have ended. -/
def Sys.Over (s : Sys) : Prop := s.rpc=.ended ∧ s.wpc=.ended

/-- Bytes accepted of the current write, and those granted in the epilogue. -/
@[simp] def WPc.accepted : WPc → Option ℕ
  | .commit n => some n
  | .relock n => some n
  | .publish n => some n
  | .epi p => heldEpi p
  | _ => none

/-- What fed tasks have taken and accepted. -/
structure FedInv (bytes : ℕ) (s : Sys) : Prop where
  /-- No more was read than there is. -/
  inp_le : s.tr.inp.length≤bytes
  /-- What was accepted is not empty. -/
  pos : ∀ n,s.wpc.accepted=some n → 0<n

variable {opts : OptionsS} {s t : Sys} {io : Io} {a : Act} {bytes : ℕ}

/-- Fed reading steps read no more than there is. -/
theorem FedInv.reader_step (hi : FedInv bytes s) (hn : feeds bytes s (.reader io))
    (h : RStep s io t) : FedInv bytes t := by
  refine ⟨?_,fun n hw => hi.pos n (by rw [←h.wpc]; exact hw)⟩
  cases h with
  | data hpc hpos hle =>
    simp only [List.length_append]
    exact hn
  | _ => exact hi.inp_le

/-- A fed epilogue holds nothing empty. -/
theorem FedInv.epi {p : EpiPc} {q : EpiPc⊕Bool} {g : ShrS} {tr : Trace} {w : WPc}
    (hi : FedInv bytes s) (hok : BufOk s.shm.buf) (hpc : s.wpc=.epi p)
    (hn : feeds bytes s (.writer io)) (he : EpiStep opts s.shm s.tr p io g tr q)
    (hw : w.accepted=q.elim heldEpi fun _ => none) :
    FedInv bytes {s with shm := g,tr := tr,wpc := w} := by
  refine ⟨?_,fun n hn' => ?_⟩
  · change tr.inp.length≤bytes
    rw [EpiStep_inp he]
    exact hi.inp_le
  · have hpos := hi.pos
    rw [hpc] at hpos
    rw [show WPc.accepted w=some n from hn'] at hw
    cases he with
    | setlinew => cases hw
    | drained hz => cases hw
    | grant hz =>
      cases hw
      exact (hok.grantW hz).1
    | fetch =>
      cases hw
      exact hpos _ rfl
    | @wrote p siz pad n hle =>
      cases hw
      exact Nat.lt_min.mpr ⟨hpos siz rfl,hn⟩
    | retry hr =>
      cases hw
      exact hpos _ rfl
    | fail hr => cases hw
    | commit =>
      cases hw
      exact hpos _ rfl
    | publish => cases hw

/-- Fed writing steps accept something. -/
theorem FedInv.writer_step (hi : FedInv bytes s) (hok : BufOk s.shm.buf)
    (hn : feeds bytes s (.writer io)) (h : WStep opts s io t) : FedInv bytes t := by
  have hpos := hi.pos
  cases h with
  | epi hpc he => exact hi.epi hok hpc hn he rfl
  | epiFail hpc he => exact hi.epi hok hpc hn he rfl
  | epiEnd hpc he => exact hi.epi hok hpc hn he rfl
  | @wrote p siz n hpc hle =>
    refine ⟨hi.inp_le,fun k hk => ?_⟩
    cases hk
    exact hn
  | @commit n hpc =>
    refine ⟨hi.inp_le,fun k hk => hpos k ?_⟩
    rw [hpc]
    exact hk
  | @relock n hpc hv =>
    refine ⟨hi.inp_le,fun k hk => hpos k ?_⟩
    rw [hpc]
    exact hk
  | retry hpc he => exact hi
  | _ hpc => exact ⟨hi.inp_le,nofun⟩

/-- The counts hold in every state of every run. -/
theorem counts (cfg : Config) {ok : Sys → Act → Prop}
    (h : Run (step opts) ok (Sys.init cfg.buf) s) : CountInv s.view := by
  have hm : Moves opts false (.init cfg.buf) s.view := view_moves nofun h
  exact .moves cfg hm

/-- Fed tasks stay fed. -/
theorem FedInv.run (cfg : Config)
    (h : Run (TwoTask.step opts) (feeds bytes) (Sys.init cfg.buf) s) : FedInv bytes s := by
  have h0 : FedInv bytes (Sys.init cfg.buf) := ⟨Nat.zero_le _,nofun⟩
  refine h.invariant_of (J:=fun s => CountInv s.view) (fun _ hr => counts cfg hr) h0 ?_
  intro s a t hc _ hi hn hs
  cases a with
  | reader io => exact hi.reader_step hn (readerStep_cases hs)
  | writer io => exact hi.writer_step hc.ok hn (writerStep_cases hs)
  | signal role =>
    cases hs
    exact ⟨hi.inp_le,hi.pos⟩
  | relay =>
    cases hs
    exact ⟨hi.inp_le,hi.pos⟩

/-- Statements of `release` to its end. -/
@[simp] def relLeft : RelPc → ℕ
  | .mark .errlog => 5
  | .mark .abrt => 4
  | .mark .done => 3
  | .nodata => 2
  | .nospace => 1

/-- Statements of the reading task up to its next read, or to its end. -/
@[simp] def RPc.left : RPc → ℕ
  | .opening => 12
  | .releasing p => relLeft p
  | .lock => 11
  | .top => 10
  | .wait => 9
  | .woken => 8
  | .take => 7
  | .fetch _ => 6
  | .reading _ _ => 5
  | .commit _ => 14
  | .relock _ => 13
  | .publish _ => 12
  | .post => 11
  | .outLog => 4
  | .outAbrt => 3
  | .outDone => 2
  | .outPost => 1
  | .ended => 0

/-- Statements of the epilogue up to the release of a write, or to its end. -/
@[simp] def epiLeft : EpiPc → ℕ
  | .setlinew => 6
  | .top => 5
  | .fetch _ => 4
  | .writing _ _ _ => 3
  | .commit _ _ => 2
  | .publish _ _ => 1

/-- Statements of the writing task up to the release of a write, or to its
end. -/
@[simp] def WPc.left : WPc → ℕ
  | .opening => 19
  | .releasing p => relLeft p
  | .lock => 18
  | .top => 17
  | .wait => 16
  | .woken => 15
  | .take => 14
  | .fetch _ => 13
  | .writing _ _ => 12
  | .commit _ => 3
  | .relock _ => 2
  | .publish _ => 1
  | .post => 18
  | .outLog => 11
  | .outAbrt => 10
  | .outDone => 9
  | .outPost => 8
  | .chkAbrt => 7
  | .epi p => epiLeft p
  | .errLog => 1
  | .ended => 0

/-- What is left of the reading task. A byte still to come outweighs a round. -/
def Sys.leftR (bytes : ℕ) (s : Sys) : ℕ := 10*(bytes-s.tr.inp.length)+s.rpc.left

/-- What is left of the writing task. A byte still to be released outweighs a
round. -/
def Sys.leftW (bytes : ℕ) (s : Sys) : ℕ := 18*(bytes-s.tr.cout)+s.wpc.left

/-- What is left of both tasks. -/
def Sys.rank (bytes : ℕ) (s : Sys) : ℕ := s.leftR bytes+s.leftW bytes

/-- A statement of `release` is one less to come. -/
theorem release_left {slot : ℕ} {g g' : ShrS} {p q : RelPc}
    (h : release slot g p=(g',some q)) : relLeft q<relLeft p := by
  cases p with
  | mark m => cases m <;> cases h <;> decide
  | nodata =>
    cases h
    decide
  | nospace => cases h

/-- Every statement of `release` is still to come. -/
theorem relLeft_pos (p : RelPc) : 0<relLeft p := by
  cases p with
  | mark m => cases m <;> decide
  | _ => decide

/-- Reading steps release nothing. -/
theorem RStep.cout (h : RStep s io t) : t.tr.cout=s.tr.cout := by
  cases h <;> rfl

/-- Writing steps read nothing. -/
theorem WStep.inp (h : WStep opts s io t) : t.tr.inp=s.tr.inp := by
  cases h with
  | epi _ he => exact EpiStep_inp he
  | epiFail _ he => exact EpiStep_inp he
  | epiEnd _ he => exact EpiStep_inp he
  | _ => rfl

/-- Every statement of a fed reading task leaves less of it. -/
theorem RStep.left_lt (hn : feeds bytes s (.reader io)) (h : RStep s io t) (hm : t.rpc≠s.rpc) :
    t.leftR bytes<s.leftR bytes := by
  unfold Sys.leftR
  cases h with
  | releasing hpc hr =>
    rw [hpc]
    exact Nat.add_lt_add_left (release_left hr) _
  | released hpc hr =>
    rw [hpc]
    exact Nat.add_lt_add_left (relLeft_pos _) _
  | stored hpc _ => exact absurd rfl hm
  | retry hpc _ => exact absurd rfl hm
  | @data p siz bs hpc hpos hle =>
    have hb : s.tr.inp.length+bs.length≤bytes := hn
    simp only [hpc,RPc.left,List.length_append]
    omega
  | _ hpc => simp [hpc]

/-- What is released in the epilogue was published. -/
theorem CountInv.epi_le {p : EpiPc} {n : ℕ} (hc : CountInv s.view) (hpc : s.wpc=.epi p)
    (hh : heldEpi p=some n) : s.tr.cout+n ≤ s.tr.inp.length := by
  have hw := hc.held
  have hr := hc.read
  have hle : n ≤ s.view.wp.extent := by
    simp only [Sys.view,hpc,WPc.phase]
    cases p <;> simp_all [EpiPc.phase,WPhase.extent]
  simp only [Sys.view] at hw hr hle
  omega

/-- Every statement of a fed epilogue leaves less of it. -/
theorem FedInv.epi_lt {p : EpiPc} {q : EpiPc⊕Bool} {g : ShrS} {tr : Trace} {w : WPc}
    (hi : FedInv bytes s) (hc : CountInv s.view) (hpc : s.wpc=.epi p)
    (he : EpiStep opts s.shm s.tr p io g tr q) (hw : w.left≤q.elim epiLeft fun f => f.toNat)
    (hm : q≠.inl p) :
    Sys.leftW bytes {s with shm := g,tr := tr,wpc := w}<s.leftW bytes := by
  have hinp := hi.inp_le
  unfold Sys.leftW
  rw [hpc]
  dsimp only [WPc.left] at hw ⊢
  generalize w.left=l at hw ⊢
  cases he with
  | retry hr => exact absurd rfl hm
  | @publish siz n =>
    have hle := CountInv.epi_le hc hpc (by rfl)
    have hpos := hi.pos (min siz n) (by rw [hpc]; rfl)
    simp only [Sum.elim_inl,epiLeft] at hw ⊢
    omega
  | _ =>
    simp only [Sum.elim_inl,Sum.elim_inr,epiLeft,Bool.toNat_false,Bool.toNat_true] at hw ⊢
    omega

/-- Every statement of a fed writing task leaves less of it. -/
theorem WStep.left_lt (hi : FedInv bytes s) (hc : CountInv s.view) (h : WStep opts s io t)
    (hm : t.wpc≠s.wpc) : t.leftW bytes<s.leftW bytes := by
  have hrelease : ∀ {n : ℕ} {g : ShrS} {l : List (Handover.Event ℕ)} {w : WPc},
      s.wpc=.publish n → w.left≤18 →
      Sys.leftW bytes
        {s with shm := g,tr := {s.tr with cout := s.tr.cout+n},handR := l,wpc := w}<
          s.leftW bytes := by
    intro n g l w hpc hw
    have hpos := hi.pos n (by rw [hpc]; rfl)
    have hle := hi.inp_le
    have hheld := hc.held
    have hread := hc.read
    simp only [Sys.view,hpc,WPc.phase,WPhase.extent] at hheld hread
    unfold Sys.leftW
    rw [hpc]
    generalize w.left=k at hw ⊢
    dsimp only [WPc.left]
    omega
  cases h with
  | epi hpc he =>
    refine hi.epi_lt hc hpc he (le_refl _) fun hq => hm ?_
    cases hq
    exact hpc.symm
  | epiFail hpc he => exact hi.epi_lt hc hpc he (le_refl _) Sum.inr_ne_inl
  | epiEnd hpc he => exact hi.epi_lt hc hpc he (le_refl _) Sum.inr_ne_inl
  | publish hpc hw => exact hrelease (l:=s.handR) hpc (by simp)
  | publishNone hpc hw hz => exact hrelease (l:=s.handR) hpc (by simp)
  | publishGrant hpc hw hz => exact hrelease hpc (by simp)
  | releasing hpc hr =>
    unfold Sys.leftW
    rw [hpc]
    exact Nat.add_lt_add_left (release_left hr) _
  | released hpc hr =>
    unfold Sys.leftW
    rw [hpc]
    exact Nat.add_lt_add_left (relLeft_pos _) _
  | retry hpc _ => exact absurd rfl hm
  | _ hpc => simp [Sys.leftW,hpc]

/-- Every statement of a task leaves less of both. -/
theorem rank_lt (cfg : Config) (h : Run (TwoTask.step cfg.opts) (feeds bytes) (Sys.init cfg.buf) s)
    (hn : feeds bytes s a) (hs : TwoTask.step cfg.opts s a=some t) (hm : t.pcs≠s.pcs) :
    t.rank bytes<s.rank bytes := by
  unfold Sys.pcs at hm
  cases a with
  | reader io =>
    have hr := readerStep_cases hs
    have hw : t.leftW bytes=s.leftW bytes := by
      unfold Sys.leftW
      rw [hr.cout,hr.wpc]
    rw [hr.wpc] at hm
    have hlt := hr.left_lt hn fun he => hm (by rw [he])
    exact Nat.add_lt_add_of_lt_of_le hlt hw.le
  | writer io =>
    have hw := writerStep_cases hs
    have hr : t.leftR bytes=s.leftR bytes := by
      unfold Sys.leftR
      rw [hw.inp,hw.rpc]
    rw [hw.rpc] at hm
    have hlt := hw.left_lt (FedInv.run cfg h) (counts cfg h) fun he => hm (by rw [he])
    exact Nat.add_lt_add_of_le_of_lt hr.le hlt
  | signal role =>
    cases hs
    exact absurd rfl hm
  | relay =>
    cases hs
    exact absurd rfl hm

/-- A statement of `release` is not made twice. -/
theorem release_ne {slot : ℕ} {g g' : ShrS} {p q : RelPc} (h : release slot g p=(g',some q)) :
    q≠p := by
  intro he
  have hlt := release_left h
  rw [he] at hlt
  exact absurd hlt (lt_irrefl _)

/-- A reading step that stays at its position moves nothing. -/
theorem RStep.stays (h : RStep s io t) (hm : t.rpc=s.rpc) : t.tr=s.tr := by
  cases h with
  | stored hpc _ => rfl
  | retry hpc _ => rfl
  | releasing hpc hr =>
    cases hm.trans hpc
    exact absurd rfl (release_ne hr)
  | _ hpc => cases hm.trans hpc

/-- A writing step that stays at its position moves nothing. -/
theorem WStep.stays (h : WStep opts s io t) (hm : t.wpc=s.wpc) : t.tr=s.tr := by
  cases h with
  | retry hpc _ => rfl
  | releasing hpc hr =>
    cases hm.trans hpc
    exact absurd rfl (release_ne hr)
  | epi hpc he =>
    cases he with
    | retry hr => rfl
    | _ => cases hm.trans hpc
  | _ hpc => cases hm.trans hpc

/-- A step that moves neither task leaves as much of both. -/
theorem rank_eq (hs : TwoTask.step opts s a=some t) (hm : t.pcs=s.pcs) :
    t.rank bytes=s.rank bytes := by
  have hr : t.rpc=s.rpc := congrArg Prod.fst hm
  have hw : t.wpc=s.wpc := congrArg Prod.snd hm
  have htr : t.tr=s.tr := by
    cases a with
    | reader io => exact (readerStep_cases hs).stays hr
    | writer io => exact (writerStep_cases hs).stays hw
    | signal role =>
      cases hs
      rfl
    | relay =>
      cases hs
      rfl
  unfold Sys.rank Sys.leftR Sys.leftW
  rw [hr,hw,htr]

/-- The statements of fed tasks are ranked. -/
theorem ranked (cfg : Config) (bytes : ℕ) :
    Ranked (TwoTask.step cfg.opts) (feeds bytes) Sys.pcs (Sys.init cfg.buf) (Sys.rank bytes) := by
  refine ⟨fun s a t h hn hs => ?_,fun s a t h hn hs hm => rank_lt cfg h hn hs hm⟩
  by_cases hm : t.pcs=s.pcs
  · exact (rank_eq hs hm).le
  · exact (rank_lt cfg h hn hs hm).le

/-- A reading task that can go on can go on at once, with calls that succeed, at
the end of the input if not before. -/
theorem ReaderEnabled.moves (h : ReaderEnabled s) (bytes : ℕ) :
    ∃ io t,io.calm=true ∧ feeds bytes s (.reader io) ∧ readerStep s io=some t ∧
      t.rpc≠s.rpc := by
  obtain ⟨io,t,hs⟩ := h
  have hread : ∀ p siz,s.rpc=.reading p siz →
      ∃ io t,io.calm=true ∧ feeds bytes s (.reader io) ∧ readerStep s io=some t ∧
        t.rpc≠s.rpc := by
    intro p siz hpc
    refine ⟨.eof,{s with tr.eof := true,rpc := .outDone},rfl,trivial,
      by simp [readerStep,hpc],?_⟩
    rw [hpc]
    intro he
    cases he
  have hopen : s.rpc=.opening → ∃ io t,io.calm=true ∧ feeds bytes s (.reader io) ∧
      readerStep s io=some t ∧ t.rpc≠s.rpc := by
    intro hpc
    refine ⟨.opened true,{s with rpc := .lock},rfl,trivial,by simp [readerStep,hpc],?_⟩
    rw [hpc]
    intro he
    cases he
  have hr := readerStep_cases hs
  cases hr with
  | opened hpc => exact hopen hpc
  | unopened hpc => exact hopen hpc
  | stored hpc _ => exact hread _ _ hpc
  | retry hpc _ => exact hread _ _ hpc
  | data hpc _ _ => exact hread _ _ hpc
  | eof hpc => exact hread _ _ hpc
  | fail hpc _ => exact hread _ _ hpc
  | releasing hpc hrel =>
    refine ⟨_,_,rfl,by trivial,hs,fun he => ?_⟩
    cases he.trans hpc
    exact release_ne hrel rfl
  | _ hpc => exact ⟨_,_,rfl,by trivial,hs,fun he => by cases he.trans hpc⟩

/-- A writing task that can go on can go on at once, with calls that succeed and
writes that accept all they were offered. -/
theorem WriterEnabled.moves (h : WriterEnabled opts s) (bytes : ℕ)
    (hpos : ∀ p,s.wpc=.epi p ∨ (∃ q siz,s.wpc=.writing q siz ∧ p=.writing q siz 0) →
      ∀ n,(EpiPc.phase p).asked=some n → 0<n) :
    ∃ io t,io.calm=true ∧ s.wpc.full io=true ∧ feeds bytes s (.writer io) ∧
      writerStep opts s io=some t ∧ t.wpc≠s.wpc := by
  obtain ⟨io,t,hs⟩ := h
  have hwrite : ∀ p siz,s.wpc=.writing p siz → ∃ io t,io.calm=true ∧ s.wpc.full io=true ∧
      feeds bytes s (.writer io) ∧ writerStep opts s io=some t ∧ t.wpc≠s.wpc := by
    intro p siz hpc
    have hsiz : 0<siz := hpos (.writing p siz 0) (.inr ⟨p,siz,hpc,rfl⟩) siz rfl
    refine ⟨.wrote siz,{s with tr.out := s.tr.out++loadAt s.shm.buf p siz,wpc := .commit siz},
      rfl,?_,hsiz,by simp [writerStep,hpc],?_⟩
    · rw [hpc]
      exact decide_eq_true rfl
    · rw [hpc]
      intro he
      cases he
  have hopen : s.wpc=.opening → ∃ io t,io.calm=true ∧ s.wpc.full io=true ∧
      feeds bytes s (.writer io) ∧ writerStep opts s io=some t ∧ t.wpc≠s.wpc := by
    intro hpc
    refine ⟨.opened true,{s with wpc := .lock},rfl,by rw [hpc]; rfl,trivial,
      by simp [writerStep,hpc],?_⟩
    rw [hpc]
    intro he
    cases he
  have hepi : ∀ p,s.wpc=.epi p → ∃ io t,io.calm=true ∧ s.wpc.full io=true ∧
      feeds bytes s (.writer io) ∧ writerStep opts s io=some t ∧ t.wpc≠s.wpc := by
    intro p hpc
    obtain ⟨io,g,tr,q,he,hq,hcalm,hfull,hn⟩ := epi_calm opts s.shm s.tr p (hpos p (.inl hpc))
    have hfull' : s.wpc.full io=true := by
      rw [hpc]
      cases io <;> exact hfull
    have hfed : feeds bytes s (.writer io) := by
      cases io with
      | wrote n => exact hn n rfl
      | _ => trivial
    cases q with
    | inl q =>
      refine ⟨io,{s with shm := g,tr := tr,wpc := .epi q},hcalm,hfull',hfed,
        by simp [writerStep,hpc,he],?_⟩
      rw [hpc]
      exact fun hqp => hq (by cases hqp; rfl)
    | inr failed =>
      refine ⟨io,{s with shm := g,tr := tr,wpc := if failed=true then .errLog else .ended},hcalm,
        hfull',hfed,by simp [writerStep,hpc,he],?_⟩
      rw [hpc]
      intro he
      cases failed <;> cases he
  have hw := writerStep_cases hs
  cases hw with
  | opened hpc => exact hopen hpc
  | unopened hpc => exact hopen hpc
  | wrote hpc _ => exact hwrite _ _ hpc
  | retry hpc _ => exact hwrite _ _ hpc
  | fail hpc _ => exact hwrite _ _ hpc
  | epi hpc _ => exact hepi _ hpc
  | epiFail hpc _ => exact hepi _ hpc
  | epiEnd hpc _ => exact hepi _ hpc
  | releasing hpc hrel =>
    refine ⟨_,_,rfl,by rw [hpc]; rfl,by trivial,hs,fun he => ?_⟩
    cases he.trans hpc
    exact release_ne hrel rfl
  | _ hpc => exact ⟨_,_,rfl,by rw [hpc]; rfl,by trivial,hs,fun he => by cases he.trans hpc⟩

/-- A task that has left has posted for the other, and two waiting tasks have a
post between them: one of the two can go on. -/
theorem enabled (cfg : Config) {ok : Sys → Act → Prop}
    (h : Run (TwoTask.step opts) ok (Sys.init cfg.buf) s) (ho : ¬s.Over) :
    ReaderEnabled s ∨ WriterEnabled opts s := by
  have hh := HandInv.run h
  have hm := MutexInv.run h
  have hlastR := hh.reader.last
  have hlastW := hh.writer.last
  rcases readerEnabled_or s with hr|hr|hr|hr
  · exact .inl hr
  · rcases writerEnabled_or opts s with hw|hw|hw|hw
    · exact .inr hw
    · exact absurd ⟨hr,hw⟩ ho
    · have hpost := hlastW (by simp [sideW,hw.1]) (by simp [sideW,hr])
      exact absurd hw.2 hpost.ne'
    · exact hm.enabled hw.2
  · rcases writerEnabled_or opts s with hw|hw|hw|hw
    · exact .inr hw
    · have hpost := hlastR (by simp [sideR,hr.1]) (by simp [sideR,hw])
      exact absurd hr.2 hpost.ne'
    · rcases not_both_wait (StallInv.run cfg h) hh hr.1 hw.1 with hp|hp
      · exact absurd hr.2 hp.ne'
      · exact absurd hw.2 hp.ne'
    · exact hm.enabled hw.2
  · exact hm.enabled hr.2

/-- Tasks that are not over can go on at once, with nothing failing and writes that
accept all they were offered. -/
theorem smooth_on (cfg : Config) {ok : Sys → Act → Prop}
    (h : Run (TwoTask.step opts) ok (Sys.init cfg.buf) s) (ho : ¬s.Over) (bytes : ℕ) :
    ∃ a t,(undisturbed s a ∧ fullWrites s a) ∧ feeds bytes s a ∧ TwoTask.step opts s a=some t ∧
      t.pcs≠s.pcs := by
  have hmoves : Moves opts false (.init cfg.buf) s.view :=
    view_moves (fun hf => by cases hf) h
  rcases enabled cfg h ho with he|he
  · obtain ⟨io,t,hc,hn,hs,hm⟩ := he.moves bytes
    exact ⟨.reader io,t,⟨hc,trivial⟩,hn,hs,fun hp => hm (congrArg Prod.fst hp)⟩
  · have hpos := asked_pos hmoves
    obtain ⟨io,t,hc,hf,hn,hs,hm⟩ := he.moves bytes fun p hp n hn => hpos n (by
      rcases hp with hpc|⟨q,siz,hpc,rfl⟩
      · unfold Sys.view
        rw [hpc]
        exact hn
      · unfold Sys.view
        rw [hpc]
        exact hn)
    exact ⟨.writer io,t,⟨hc,hf⟩,hn,hs,fun hp => hm (congrArg Prod.snd hp)⟩

/-- Fed tasks that are not over can go on at once. -/
theorem moves_on (cfg : Config) {ok : Sys → Act → Prop}
    (h : Run (TwoTask.step opts) ok (Sys.init cfg.buf) s) (ho : ¬s.Over) (bytes : ℕ) :
    ∃ a t,feeds bytes s a ∧ TwoTask.step opts s a=some t ∧ t.pcs≠s.pcs :=
  have ⟨a,t,_,hmove⟩ := smooth_on cfg h ho bytes
  ⟨a,t,hmove⟩

/-- The rank at the start of a transfer. -/
theorem init_rank (buf : BufS) (bytes : ℕ) : (Sys.init buf).rank bytes=28*bytes+31 := by
  have he : (Sys.init buf).rank bytes=10*bytes+12+(18*bytes+19) := rfl
  omega

/-- The two tasks come to an end under every interleaving, whatever the modes,
the resume points and the signals. Fed by an input of at most `bytes` bytes and
an output that accepts something of every write, they go from one statement to
another at most `28*bytes+31` times, a repeated call staying one statement; they
can always go on before both have ended, and both end in every run that does not
rest for ever at a pair of statements. -/
theorem two_task_ends (cfg : Config) (bytes : ℕ) :
    (∀ n s,CountedRun (TwoTask.step cfg.opts) (feeds bytes) Sys.pcs (Sys.init cfg.buf) n s →
      n≤28*bytes+31) ∧
    (∀ s,Run (TwoTask.step cfg.opts) (feeds bytes) (Sys.init cfg.buf) s → ¬s.Over →
      ∃ a t,feeds bytes s a ∧ TwoTask.step cfg.opts s a=some t ∧ t.pcs≠s.pcs) ∧
    ∀ g,Endless (TwoTask.step cfg.opts) (feeds bytes) (Sys.init cfg.buf) g →
      (∀ i,¬(g i).Over → ∃ j≥i,(g (j+1)).pcs≠(g j).pcs) → ∃ i,(g i).Over := by
  refine ⟨fun n s h => ?_,fun s h ho => moves_on cfg h ho bytes,fun g hg hfair => ?_⟩
  · have hb := h.bounded (ranked cfg bytes)
    rw [init_rank] at hb
    omega
  · exact hg.reaches (P:=Sys.Over) (ranked cfg bytes) hfair

end Yancat.TwoTask
