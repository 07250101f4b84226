import Yancat.SingleTaskStream

/-!
# Progress and end of the single process

Reads and writes are never stalled together, so that every round of the loop
makes a call. What is left of a transfer is weighed by the bytes still to come,
the bytes in the buffer and the statements up to the next call. A read takes
from the first and a write from the second, and everything else only from the
third, whatever the two loop tests throw away.
-/

namespace Yancat.SingleTask

open Buffer Setup Shared Transition FailureFlags ByteStream

/-- An input of at most a number of bytes, and an output that accepts at least
one byte of every write. -/
def feeds (bytes : ℕ) (s : SSys) : Act → Prop
  | .task (.data bs) => s.tr.inp.length+bs.length≤bytes
  | .task (.wrote n) => 0<n
  | _ => True

/-- A step that returns from no call. -/
def noCall (s : SSys) (_ : Act) : Prop :=
  (∀ p siz cnt,s.pc≠.reading p siz cnt) ∧ ∀ p siz cnt,s.pc≠.writing p siz cnt

/-- The process holds a read grant. -/
@[simp] def SPc.reads : SPc → Bool
  | .rfetch _ _ => true
  | .reading _ _ _ => true
  | .rcommit _ _ => true
  | .rpublish _ _ => true
  | _ => false

/-- The process holds a write grant. -/
@[simp] def SPc.writes : SPc → Bool
  | .wfetch _ _ => true
  | .writing _ _ _ => true
  | .wcommit _ _ => true
  | .wpublish _ _ => true
  | _ => false

/-- Stream bytes of a write grant of the epilogue, and of what was accepted of it. -/
@[simp] def heldEpi : EpiPc → Option ℕ
  | .fetch siz => some siz
  | .writing _ siz _ => some siz
  | .commit siz n => some (min siz n)
  | .publish siz n => some (min siz n)
  | _ => none

/-- Bytes of a write grant, and of what was accepted of it. -/
@[simp] def SPc.held : SPc → Option ℕ
  | .wfetch siz _ => some siz
  | .writing _ siz _ => some siz
  | .wcommit n _ => some n
  | .wpublish n _ => some n
  | .epi _ p => heldEpi p
  | _ => none

/-- The loop invariant. -/
structure LoopInv (s : SSys) : Prop where
  /-- The geometry. -/
  ok : BufOk s.shm.buf
  /-- Reads are not stalled under a grant. -/
  runR : s.pc.reads=true → s.shm.buf.rstall=false
  /-- Writes are not stalled under a grant. -/
  runW : s.pc.writes=true → s.shm.buf.wstall=false
  /-- Until the epilogue the two flags are apart. -/
  apart : s.pc.drains=false → Apart s.shm.buf
  /-- What is held for writing is in the buffer. -/
  held : ∀ n,s.pc.held=some n → n≤fill s.shm.buf

variable {opts : OptionsS} {s t : SSys} {io : Io} {a : Act} {bytes : ℕ}

/-- Moving bytes about keeps the fill. -/
theorem fill_moved {buf buf' : BufS} (h : Moved buf buf') : fill buf'=fill buf := by
  obtain ⟨_,_,_,_,_,_,_,_,rfl⟩ := h
  rfl

/-- A read decision keeps the fill. -/
theorem fill_canR (buf : BufS) : fill (bufCanR buf).2=fill buf := by
  obtain ⟨st,hs⟩ := bufCanR_snd buf
  rw [hs]
  rfl

/-- A write decision keeps the fill. -/
theorem fill_canW (buf : BufS) : fill (bufCanW buf).2=fill buf := by
  obtain ⟨st,hs⟩ := bufCanW_snd buf
  rw [hs]
  rfl

/-- A step that moves no index, begins no grant and holds no more than before. -/
theorem LoopInv.quiet (hi : LoopInv s) (hm : Moved s.shm.buf t.shm.buf)
    (hr : t.pc.reads=true → s.pc.reads=true) (hw : t.pc.writes=true → s.pc.writes=true)
    (hd : t.pc.drains=false → s.pc.drains=false)
    (hh : ∀ n,t.pc.held=some n → ∃ k,s.pc.held=some k ∧ n≤k) : LoopInv t := by
  have hok := hm.ok hi.ok
  have hf := fill_moved hm
  refine ⟨hok,fun h1 => ?_,fun h1 => ?_,fun h1 => ?_,fun n h1 => ?_⟩
  · obtain ⟨_,_,_,_,_,_,_,_,hb⟩ := hm
    rw [hb]
    exact hi.runR (hr h1)
  · obtain ⟨_,_,_,_,_,_,_,_,hb⟩ := hm
    rw [hb]
    exact hi.runW (hw h1)
  · obtain ⟨_,_,_,_,_,_,_,_,hb⟩ := hm
    rw [hb]
    exact hi.apart (hd h1)
  · obtain ⟨k,hk,hle⟩ := hh n h1
    rw [hf]
    exact hle.trans (hi.held k hk)

/-- The loop invariant is kept by the epilogue. -/
theorem LoopInv.epi_step {rneg : Bool} {p : EpiPc} {q : EpiPc⊕Bool} {g : ShrS} {tr : Trace}
    {pc : SPc} (hi : LoopInv s) (hpc : s.pc=.epi rneg p)
    (he : EpiStep opts s.shm s.tr p io g tr q) (hr : pc.reads=false) (hw : pc.writes=false)
    (hd : pc.drains=true) (hh : pc.held=q.elim heldEpi fun _ => none) :
    LoopInv {s with shm := g,tr := tr,pc := pc} := by
  refine ⟨he.ok hi.ok,fun h => ?_,fun h => ?_,fun h => ?_,fun n hn => ?_⟩
  · exact absurd (hr.symm.trans h) Bool.false_ne_true
  · exact absurd (hw.symm.trans h) Bool.false_ne_true
  · exact absurd (h.symm.trans hd) Bool.false_ne_true
  · have hheld := hi.held
    rw [hpc] at hheld
    rw [show SPc.held pc=some n from hn] at hh
    cases he with
    | setlinew => cases hh
    | drained hz => cases hh
    | grant hz =>
      cases hh
      change _≤fill (bufCanW s.shm.buf).2
      rw [fill_canW]
      exact (hi.ok.grantW hz).2.2
    | fetch =>
      cases hh
      rw [fill_moved (epiFetch_moved opts s.shm.buf _)]
      exact hheld _ rfl
    | wrote hn =>
      cases hh
      exact (Nat.min_le_left _ _).trans (hheld _ rfl)
    | retry hn =>
      cases hh
      exact hheld _ rfl
    | fail hn => cases hh
    | commit =>
      cases hh
      rw [fill_moved (bufCommitW_moved s.shm.buf _)]
      exact hheld _ rfl
    | publish => cases hh

/-- The loop invariant is kept by the transfer. -/
theorem LoopInv.task_step (hi : LoopInv s) (h : SStep opts s io t) : LoopInv t := by
  have hok := hi.ok
  cases h with
  | releasing hpc hr =>
    obtain ⟨_,_,_,hg⟩ := markStep_frame (errIni+Role.arbiter.idx) s.shm _
    rw [hr] at hg
    cases hg
    exact hi.quiet (.refl _) nofun nofun (fun _ => by rw [hpc]; rfl) nofun
  | released hpc hr =>
    obtain ⟨_,_,_,hg⟩ := markStep_frame (errIni+Role.arbiter.idx) s.shm _
    rw [hr] at hg
    cases hg
    exact hi.quiet (.refl _) nofun nofun nofun nofun
  | rskip hpc hz =>
    refine ⟨hok.canR,nofun,nofun,fun _ => hok.canR_apart (hi.apart (by rw [hpc]; rfl)),nofun⟩
  | rgrant hpc hz hc =>
    exact ⟨hok.canR,fun _ => bufCanR_unstalled hz,nofun,
      fun _ => hok.canR_apart (hi.apart (by rw [hpc]; rfl)),nofun⟩
  | rpublish hpc =>
    have hst : s.shm.buf.rstall=false := hi.runR (by rw [hpc]; rfl)
    exact ⟨hok.commitRf _,nofun,nofun,
      fun _ hr => absurd (hst.symm.trans hr) Bool.false_ne_true,nofun⟩
  | wskip hpc hz =>
    exact ⟨hok.canW,nofun,nofun,fun _ => hok.canW_apart (hi.apart (by rw [hpc]; rfl)),nofun⟩
  | wgrant hpc hz hc =>
    refine ⟨hok.canW,nofun,fun _ => bufCanW_unstalled hz,
      fun _ => hok.canW_apart (hi.apart (by rw [hpc]; rfl)),fun n hn => ?_⟩
    cases hn
    change _≤fill (bufCanW s.shm.buf).2
    rw [fill_canW]
    exact (hok.grantW hz).2.2
  | wpublish hpc =>
    have hst : s.shm.buf.wstall=false := hi.runW (by rw [hpc]; rfl)
    exact ⟨hok.commitWf _,nofun,nofun,
      fun _ _ hw => absurd (hst.symm.trans hw) Bool.false_ne_true,nofun⟩
  | epi hpc he => exact hi.epi_step hpc he rfl rfl rfl rfl
  | epiEnd hpc he => exact hi.epi_step hpc he rfl rfl rfl rfl
  | rfetch hpc =>
    exact hi.quiet (bufFetchR_moved _ _) (fun _ => by rw [hpc]; rfl) nofun
      (fun _ => by rw [hpc]; rfl) nofun
  | stored hpc hlt => exact hi.quiet (storeAt_moved _ _ _) id id id fun n hn => ⟨n,hn,le_refl n⟩
  | data hpc hpos hle =>
    exact hi.quiet (storeAt_moved _ _ _) (fun _ => by rw [hpc]; rfl) nofun
      (fun _ => by rw [hpc]; rfl) nofun
  | rretry hpc he => exact hi
  | rcommit hpc =>
    exact hi.quiet (bufCommitR_moved _ _) (fun _ => by rw [hpc]; rfl) nofun
      (fun _ => by rw [hpc]; rfl) nofun
  | wfetch hpc =>
    refine hi.quiet (bufFetchW_moved _ _) nofun (fun _ => by rw [hpc]; rfl)
      (fun _ => by rw [hpc]; rfl) fun n hn => ⟨n,?_,le_refl n⟩
    rw [hpc]
    exact hn
  | @wrote p siz cnt n hpc hle =>
    refine hi.quiet (.refl _) nofun (fun _ => by rw [hpc]; rfl) (fun _ => by rw [hpc]; rfl) ?_
    intro k hk
    cases hk
    exact ⟨siz,by rw [hpc]; rfl,hle⟩
  | wretry hpc he => exact hi
  | wcommit hpc =>
    refine hi.quiet (bufCommitW_moved _ _) nofun (fun _ => by rw [hpc]; rfl)
      (fun _ => by rw [hpc]; rfl) fun n hn => ⟨n,?_,le_refl n⟩
    rw [hpc]
    exact hn
  | clean hpc => exact hi.quiet (.refl _) nofun nofun nofun nofun
  | log hpc => exact hi.quiet (.refl _) nofun nofun nofun nofun
  | skip hpc => exact hi.quiet (.refl _) nofun nofun nofun nofun
  | enter hpc => exact hi.quiet (.refl _) nofun nofun nofun nofun
  | _ hpc => exact hi.quiet (.refl _) nofun nofun (fun _ => by rw [hpc]; rfl) nofun

/-- A signal leaves buffer, trace and position alone. -/
theorem LoopInv.signal_step (hi : LoopInv s) : LoopInv (signalStep s) := by
  have hb := signalStep_buf s
  exact hi.quiet (by rw [hb]; exact .refl _) id id id fun n hn => ⟨n,hn,le_refl n⟩

/-- The loop invariant holds in every state of every run. -/
theorem LoopInv.run (cfg : Config) {ok : SSys → Act → Prop}
    (h : Run (step opts) ok (SSys.init cfg.buf) s) : LoopInv s := by
  have h0 : LoopInv (SSys.init cfg.buf) :=
    ⟨cfg.ok,nofun,nofun,fun _ hr => absurd (cfg.fresh.rstall.symm.trans hr) Bool.false_ne_true,
      nofun⟩
  refine h.invariant h0 fun s a t hi _ hs => ?_
  cases a with
  | task io => exact hi.task_step (taskStep_cases hs)
  | signal =>
    cases hs
    exact hi.signal_step

/-- The two decisions of a round never both refuse. -/
theorem LoopInv.not_both (hi : LoopInv s) (hpc : s.pc=.top) (hz : (bufCanR s.shm.buf).1=0) :
    (bufCanW (bufCanR s.shm.buf).2).1≠0 := by
  have ha := hi.ok.canR_apart (hi.apart (by rw [hpc]; rfl))
  have hr := hi.ok.refusesR hz
  intro hw
  have hw' := hi.ok.canR.refusesW hw
  refine hi.ok.canR.canW.not_both_refuse (hi.ok.canR.canW_apart ha) ?_ hw'
  -- the write decision leaves the read side's reasons alone
  obtain ⟨st,hs⟩ := bufCanW_snd (bufCanR s.shm.buf).2
  rw [hs]
  exact hr

/-- The write loop is about to make a call. -/
abbrev WLive (buf : BufS) (cnt : ℕ) : Prop := (bufCanW buf).1≠0 ∧ cnt≠0

/-- The read loop is about to make a call, or to leave the round to one. -/
abbrev RLive (opts : OptionsS) (buf : BufS) (cnt : ℕ) : Prop :=
  ((bufCanR buf).1≠0 ∧ cnt≠0) ∨ WLive (bufCanR buf).2 opts.wcnt

/-- Every round that is entered is about to make a call. -/
theorem LoopInv.live (hi : LoopInv s) (hpc : s.pc=.top) (hr : opts.rcnt≠0) (hw : opts.wcnt≠0) :
    RLive opts s.shm.buf opts.rcnt := by
  by_cases hz : (bufCanR s.shm.buf).1=0
  · exact .inr ⟨hi.not_both hpc hz,hw⟩
  · exact .inl ⟨hz,hr⟩

/-- Positions of a round up to its first call. -/
def Awaits (opts : OptionsS) (buf : BufS) : SPc → Prop
  | .rtest cnt => RLive opts buf cnt
  | .rfetch _ _ => True
  | .reading _ _ _ => True
  | .wtest cnt => WLive buf cnt
  | .wfetch _ _ => True
  | .writing _ _ _ => True
  | _ => False

/-- A round stays short of its end up to its first call. -/
theorem Awaits.step (h : Awaits opts s.shm.buf s.pc) (hn : noCall s a)
    (hs : step opts s a=some t) : Awaits opts t.shm.buf t.pc := by
  cases a with
  | signal =>
    cases hs
    rw [signalStep_buf]
    exact h
  | task io =>
    cases taskStep_cases hs with
    | rskip hpc hz =>
      rw [hpc] at h
      rcases h with ⟨h1,h2⟩|h
      · exact absurd hz (not_or.mpr ⟨h1,h2⟩)
      · exact h
    | rgrant hpc hz hc => trivial
    | rfetch hpc => trivial
    | stored hpc _ => exact absurd hpc (hn.1 _ _ _)
    | data hpc _ _ => exact absurd hpc (hn.1 _ _ _)
    | eof hpc => exact absurd hpc (hn.1 _ _ _)
    | rretry hpc _ => exact h
    | rfail hpc _ => exact absurd hpc (hn.1 _ _ _)
    | wskip hpc hz =>
      rw [hpc] at h
      exact absurd hz (not_or.mpr h)
    | wgrant hpc hz hc => trivial
    | wfetch hpc => trivial
    | wrote hpc _ => exact absurd hpc (hn.2 _ _ _)
    | wretry hpc _ => exact h
    | wfail hpc _ => exact absurd hpc (hn.2 _ _ _)
    | _ hpc =>
      rw [hpc] at h
      exact h.elim

/-- Statements of the epilogue up to the release of a write. -/
@[simp] def leftEpi : EpiPc → ℕ
  | .setlinew => 12
  | .top => 11
  | .fetch _ => 10
  | .writing _ _ _ => 9
  | .commit _ _ => 8
  | .publish _ _ => 7

/-- Statements up to the publication of a read, the release of a write, or the
end. A loop test that is about to make a call is below the round's start, any
other above it. -/
@[simp] def SPc.left (opts : OptionsS) (buf : BufS) : SPc → ℕ
  | .openIn => 31
  | .openOut => 30
  | .rtest cnt => if RLive opts buf cnt then 19 else 22
  | .wtest cnt => if WLive buf cnt then 18 else 21
  | .top => 20
  | .rfetch _ _ => 17
  | .reading _ _ _ => 16
  | .rcommit _ _ => 15
  | .rpublish _ _ => 14
  | .wfetch _ _ => 17
  | .writing _ _ _ => 16
  | .wcommit _ _ => 15
  | .wpublish _ _ => 14
  | .out _ _ => 13
  | .epi _ p => leftEpi p
  | .releasing .errlog => 3
  | .releasing .abrt => 2
  | .releasing .done => 1
  | .fin _ => 1
  | .ended => 0

/-- The loop is still to be left. -/
@[simp] def SPc.stage : SPc → ℕ
  | .releasing _ => 0
  | .out _ _ => 0
  | .epi _ _ => 0
  | .fin _ => 0
  | .ended => 0
  | _ => 1

/-- A read is still to be published. -/
@[simp] def SPc.pending : SPc → ℕ
  | .rcommit _ _ => 1
  | .rpublish _ _ => 1
  | _ => 0

/-- Four counts as the digits of one number. -/
def weigh (bytes stage input fill left : ℕ) : ℕ :=
  ((stage*(2*bytes+2)+input)*2^63+fill)*32+left

/-- What is left of a transfer. -/
def SSys.rank (opts : OptionsS) (bytes : ℕ) (s : SSys) : ℕ :=
  weigh bytes s.pc.stage (2*(bytes-s.tr.inp.length)+s.pc.pending) (fill s.shm.buf)
    (s.pc.left opts s.shm.buf)

/-- A higher digit outweighs all lower ones. -/
theorem digit_lt {k x x' y y' : ℕ} (hx : x'<x) (hy : y'<k) : x'*k+y'<x*k+y :=
  calc
    x'*k+y'<x'*k+k := Nat.add_lt_add_left hy _
    _=(x'+1)*k := (Nat.succ_mul x' k).symm
    _≤x*k := Nat.mul_le_mul_right k hx
    _≤x*k+y := Nat.le_add_right _ _

section Weights

variable {a' b b' c c' d d' : ℕ}

/-- Leaving the loop outweighs everything else. -/
theorem weigh_stage {a : ℕ} (ha : a'<a) (hb : b'<2*bytes+2) (hc : c'<2^63) (hd : d'<32) :
    weigh bytes a' b' c' d'<weigh bytes a b c d :=
  digit_lt (digit_lt (digit_lt ha hb) hc) hd

/-- A byte of input outweighs the buffer and the statements. -/
theorem weigh_input {a : ℕ} (ha : a'=a) (hb : b'<b) (hc : c'<2^63) (hd : d'<32) :
    weigh bytes a' b' c' d'<weigh bytes a b c d := by
  subst ha
  exact digit_lt (digit_lt (Nat.add_lt_add_left hb _) hc) hd

/-- A byte in the buffer outweighs the statements. -/
theorem weigh_fill {a : ℕ} (ha : a'=a) (hb : b'=b) (hc : c'<c) (hd : d'<32) :
    weigh bytes a' b' c' d'<weigh bytes a b c d := by
  subst ha hb
  exact digit_lt (Nat.add_lt_add_left hc _) hd

/-- A statement counts for itself. -/
theorem weigh_left {a : ℕ} (ha : a'=a) (hb : b'=b) (hc : c'=c) (hd : d'<d) :
    weigh bytes a' b' c' d'<weigh bytes a b c d := by
  subst ha hb hc
  exact Nat.add_lt_add_left hd _

end Weights

/-- Every position has fewer than 32 statements left. -/
theorem SPc.left_lt (opts : OptionsS) (buf : BufS) (pc : SPc) : pc.left opts buf<32 := by
  cases pc with
  | releasing p => cases p <;> simp
  | rtest cnt =>
    rw [SPc.left]
    split <;> decide
  | wtest cnt =>
    rw [SPc.left]
    split <;> decide
  | epi rneg p => cases p <;> simp
  | _ => simp

/-- At most one read is still to be published. -/
theorem SPc.pending_le (pc : SPc) : pc.pending≤1 := by
  cases pc <;> simp

/-- What a fed process has taken and holds. -/
structure FedInv (bytes : ℕ) (s : SSys) : Prop where
  /-- No more was read than there is. -/
  inp_le : s.tr.inp.length≤bytes
  /-- What is held for writing is not empty. -/
  pos : ∀ n,s.pc.held=some n → 0<n

/-- A step that reads nothing and holds what was held before. -/
theorem FedInv.quiet (hi : FedInv bytes s) (ht : t.tr.inp=s.tr.inp)
    (hh : ∀ n,t.pc.held=some n → s.pc.held=some n) : FedInv bytes t :=
  ⟨by rw [ht]; exact hi.inp_le,fun n hn => hi.pos n (hh n hn)⟩

/-- The epilogue reads nothing. -/
theorem EpiStep_inp {p : EpiPc} {q : EpiPc⊕Bool} {g g' : ShrS} {tr tr' : Trace}
    (h : EpiStep opts g tr p io g' tr' q) : tr'.inp=tr.inp := by
  cases h <;> rfl

/-- A fed epilogue holds nothing empty. -/
theorem FedInv.epi_step {rneg : Bool} {p : EpiPc} {q : EpiPc⊕Bool} {g : ShrS} {tr : Trace}
    {pc : SPc} (hi : FedInv bytes s) (hok : BufOk s.shm.buf) (hpc : s.pc=.epi rneg p)
    (hn : feeds bytes s (.task io)) (he : EpiStep opts s.shm s.tr p io g tr q)
    (hh : pc.held=q.elim heldEpi fun _ => none) :
    FedInv bytes {s with shm := g,tr := tr,pc := pc} := by
  refine ⟨?_,fun n hn' => ?_⟩
  · change tr.inp.length≤bytes
    rw [EpiStep_inp he]
    exact hi.inp_le
  · have hpos := hi.pos
    rw [hpc] at hpos
    rw [show SPc.held pc=some n from hn'] at hh
    cases he with
    | setlinew => cases hh
    | drained hz => cases hh
    | grant hz =>
      cases hh
      exact (hok.grantW hz).1
    | fetch =>
      cases hh
      exact hpos _ rfl
    | @wrote p siz pad n hle =>
      cases hh
      have hs : 0<siz := hpos _ rfl
      exact Nat.lt_min.mpr ⟨hs,hn⟩
    | retry hr =>
      cases hh
      exact hpos _ rfl
    | fail hr => cases hh
    | commit =>
      cases hh
      exact hpos _ rfl
    | publish => cases hh

/-- A fed process stays fed. -/
theorem FedInv.task_step (hi : FedInv bytes s) (hok : BufOk s.shm.buf)
    (hn : feeds bytes s (.task io)) (h : SStep opts s io t) : FedInv bytes t := by
  cases h with
  | @data p siz cnt bs hpc hpos hle =>
    refine ⟨?_,nofun⟩
    change (s.tr.inp++bs).length≤bytes
    rw [List.length_append]
    exact hn
  | wgrant hpc hz hc =>
    refine ⟨hi.inp_le,fun n hn => ?_⟩
    cases hn
    exact (hok.grantW hz).1
  | wfetch hpc =>
    refine hi.quiet rfl fun n hn => ?_
    rw [hpc]
    exact hn
  | wrote hpc hle =>
    refine ⟨hi.inp_le,fun n hn' => ?_⟩
    cases hn'
    exact hn
  | wcommit hpc =>
    refine hi.quiet rfl fun n hn => ?_
    rw [hpc]
    exact hn
  | stored hpc hlt => exact hi.quiet rfl fun _ => id
  | rretry hpc he => exact hi
  | wretry hpc he => exact hi
  | epi hpc he => exact hi.epi_step hok hpc hn he rfl
  | epiEnd hpc he => exact hi.epi_step hok hpc hn he rfl
  | _ => exact hi.quiet rfl nofun

/-- A fed process is fed in every state of every run. -/
theorem FedInv.run (cfg : Config)
    (h : Run (step opts) (feeds bytes) (SSys.init cfg.buf) s) : FedInv bytes s := by
  refine h.invariant_of (J:=LoopInv) (fun _ hr => LoopInv.run cfg hr) ⟨Nat.zero_le _,nofun⟩ ?_
  intro s a t hl _ hi hn hs
  cases a with
  | task io => exact hi.task_step hl.ok hn (taskStep_cases hs)
  | signal =>
    cases hs
    exact hi.quiet rfl fun _ => id

section Steps

variable {shm shm' : ShrS} {tr tr' : Trace} {pc pc' : SPc} {hnd hnd' : Option MarkPc}

/-- Leaving the loop lowers the rank. -/
theorem rank_stage (h1 : pc'.stage<pc.stage) (hok : BufOk shm'.buf) :
    SSys.rank opts bytes ⟨shm',tr',pc',hnd'⟩<SSys.rank opts bytes ⟨shm,tr,pc,hnd⟩ := by
  have hp := pc'.pending_le
  have hb : 2*(bytes-tr'.inp.length)+pc'.pending<2*bytes+2 := by omega
  exact weigh_stage h1 hb (hok.fill_lt.trans_le hok.size_le) (SPc.left_lt _ _ _)

/-- Taking from the input, or publishing, lowers the rank. -/
theorem rank_input (h1 : pc'.stage=pc.stage)
    (h2 : 2*(bytes-tr'.inp.length)+pc'.pending<2*(bytes-tr.inp.length)+pc.pending)
    (hok : BufOk shm'.buf) :
    SSys.rank opts bytes ⟨shm',tr',pc',hnd'⟩<SSys.rank opts bytes ⟨shm,tr,pc,hnd⟩ :=
  weigh_input h1 h2 (hok.fill_lt.trans_le hok.size_le) (SPc.left_lt _ _ _)

/-- Releasing from the buffer lowers the rank. -/
theorem rank_fill (h1 : pc'.stage=pc.stage) (h2 : tr'.inp=tr.inp)
    (h3 : pc'.pending=pc.pending) (h4 : fill shm'.buf<fill shm.buf) :
    SSys.rank opts bytes ⟨shm',tr',pc',hnd'⟩<SSys.rank opts bytes ⟨shm,tr,pc,hnd⟩ := by
  refine weigh_fill h1 ?_ h4 (SPc.left_lt _ _ _)
  dsimp only
  rw [h2,h3]

/-- Any other statement lowers the rank. -/
theorem rank_left (h1 : pc'.stage=pc.stage) (h2 : tr'.inp=tr.inp)
    (h3 : pc'.pending=pc.pending) (h4 : fill shm'.buf=fill shm.buf)
    (h5 : pc'.left opts shm'.buf<pc.left opts shm.buf) :
    SSys.rank opts bytes ⟨shm',tr',pc',hnd'⟩<SSys.rank opts bytes ⟨shm,tr,pc,hnd⟩ := by
  refine weigh_left h1 ?_ h4 h5
  dsimp only
  rw [h2,h3]

/-- Releasing bytes that are in the buffer takes from the fill. -/
theorem fill_release {buf : BufS} {n : ℕ} (hok : BufOk buf) (hpos : 0<n) (hle : n≤fill buf) :
    fill (bufCommitWf buf n)<fill buf := by
  rw [hok.fill_commitWf hle]
  omega

/-- A statement of the epilogue lowers the rank. -/
theorem rank_epi {rneg : Bool} {p : EpiPc} {q : EpiPc⊕Bool}
    (hi : LoopInv ⟨shm,tr,.epi rneg p,hnd⟩) (hf : FedInv bytes ⟨shm,tr,.epi rneg p,hnd⟩)
    (he : EpiStep opts shm tr p io shm' tr' q) (hs : pc'.stage=0) (hp : pc'.pending=0)
    (hl : pc'.left opts shm'.buf=q.elim leftEpi fun _ => 1)
    (hm : q≠.inl p) :
    SSys.rank opts bytes ⟨shm',tr',pc',hnd⟩<SSys.rank opts bytes ⟨shm,tr,.epi rneg p,hnd⟩ := by
  cases he with
  | setlinew => exact rank_left hs rfl hp rfl (hl.trans_lt (by simp))
  | drained hz => exact rank_left hs rfl hp (fill_canW _) (hl.trans_lt (by simp))
  | grant hz => exact rank_left hs rfl hp (fill_canW _) (hl.trans_lt (by simp))
  | fetch => exact rank_left hs rfl hp (fill_moved (epiFetch_moved _ _ _)) (hl.trans_lt (by simp))
  | wrote hn => exact rank_left hs rfl hp rfl (hl.trans_lt (by simp))
  | retry hr => exact absurd rfl hm
  | fail hr => exact rank_left hs rfl hp rfl (hl.trans_lt (by simp))
  | commit => exact rank_left hs rfl hp (fill_moved (bufCommitW_moved _ _)) (hl.trans_lt (by simp))
  | publish => exact rank_fill hs rfl hp (fill_release hi.ok (hf.pos _ rfl) (hi.held _ rfl))

/-- Every statement of a fed process lowers the rank. -/
theorem SStep.rank_lt (hi : LoopInv ⟨shm,tr,pc,hnd⟩) (hf : FedInv bytes ⟨shm,tr,pc,hnd⟩)
    (hr : opts.rcnt≠0) (hw : opts.wcnt≠0) (hn : feeds bytes ⟨shm,tr,pc,hnd⟩ (.task io))
    (h : SStep opts ⟨shm,tr,pc,hnd⟩ io t) (hm : t.pc≠pc) :
    t.rank opts bytes<SSys.rank opts bytes ⟨shm,tr,pc,hnd⟩ := by
  have hok : BufOk shm.buf := hi.ok
  cases h with
  | openedIn hpc =>
    cases hpc
    exact rank_left rfl rfl rfl rfl (by simp)
  | unopenedIn hpc =>
    cases hpc
    exact rank_stage Nat.one_pos hok
  | openedOut hpc =>
    cases hpc
    exact rank_left rfl rfl rfl rfl (by simp)
  | unopenedOut hpc =>
    cases hpc
    exact rank_stage Nat.one_pos hok
  | @releasing p q g hpc hr =>
    cases hpc
    cases p <;> cases hr <;> exact rank_left rfl rfl rfl rfl (by simp)
  | @released p g hpc hr =>
    cases hpc
    cases p <;> cases hr
    exact rank_left rfl rfl rfl rfl (by simp)
  | stop hpc hd =>
    cases hpc
    exact rank_stage Nat.one_pos hok
  | round hpc hd =>
    cases hpc
    refine rank_left rfl rfl rfl rfl ?_
    rw [SPc.left,if_pos (hi.live rfl hr hw)]
    exact Nat.lt_succ_self 19
  | @rskip cnt hpc hz =>
    cases hpc
    refine rank_left rfl rfl rfl (fill_canR _) ?_
    dsimp only [SPc.left]
    by_cases hl : WLive (bufCanR shm.buf).2 opts.wcnt
    · rw [if_pos hl,if_pos (.inr hl)]
      decide
    · rw [if_neg hl,if_neg (by rw [RLive]; tauto)]
      decide
  | @rgrant cnt hpc hz hc =>
    cases hpc
    refine rank_left rfl rfl rfl (fill_canR _) ?_
    dsimp only [SPc.left]
    rw [if_pos (.inl ⟨hz,hc⟩)]
    decide
  | rfetch hpc =>
    cases hpc
    exact rank_left rfl rfl rfl (fill_moved (bufFetchR_moved _ _)) (by simp)
  | stored hpc hlt => exact absurd rfl hm
  | @data p siz cnt bs hpc hpos hle =>
    cases hpc
    have hfit : tr.inp.length+bs.length≤bytes := hn
    refine rank_input rfl ?_ ((storeAt_moved _ _ _).ok hok)
    simp only [List.length_append,SPc.pending]
    omega
  | eof hpc =>
    cases hpc
    exact rank_stage Nat.one_pos hok
  | rretry hpc he => exact absurd rfl hm
  | rfail hpc he =>
    cases hpc
    exact rank_stage Nat.one_pos hok
  | rcommit hpc =>
    cases hpc
    exact rank_left rfl rfl rfl (fill_moved (bufCommitR_moved _ _)) (by simp)
  | rpublish hpc =>
    cases hpc
    exact rank_input rfl (Nat.lt_succ_self _) (hok.commitRf _)
  | @wskip cnt hpc hz =>
    cases hpc
    refine rank_left rfl rfl rfl (fill_canW _) ?_
    dsimp only [SPc.left]
    rw [if_neg (by rw [WLive]; tauto)]
    decide
  | @wgrant cnt hpc hz hc =>
    cases hpc
    refine rank_left rfl rfl rfl (fill_canW _) ?_
    dsimp only [SPc.left]
    rw [if_pos ⟨hz,hc⟩]
    decide
  | wfetch hpc =>
    cases hpc
    exact rank_left rfl rfl rfl (fill_moved (bufFetchW_moved _ _)) (by simp)
  | wrote hpc hle =>
    cases hpc
    exact rank_left rfl rfl rfl rfl (by simp)
  | wretry hpc he => exact absurd rfl hm
  | wfail hpc he =>
    cases hpc
    exact rank_stage Nat.one_pos hok
  | wcommit hpc =>
    cases hpc
    exact rank_left rfl rfl rfl (fill_moved (bufCommitW_moved _ _)) (by simp)
  | wpublish hpc =>
    cases hpc
    exact rank_fill rfl rfl rfl (fill_release hok (hf.pos _ rfl) (hi.held _ rfl))
  | skip hpc =>
    cases hpc
    exact rank_left rfl rfl rfl rfl (by simp)
  | enter hpc =>
    cases hpc
    exact rank_left rfl rfl rfl rfl (by simp)
  | epi hpc he =>
    cases hpc
    exact rank_epi hi hf he rfl rfl rfl fun hq => hm (by cases hq; rfl)
  | epiEnd hpc he =>
    cases hpc
    exact rank_epi hi hf he rfl rfl rfl nofun
  | log hpc =>
    cases hpc
    exact rank_left rfl rfl rfl rfl (by simp)
  | clean hpc =>
    cases hpc
    exact rank_left rfl rfl rfl rfl (by simp)

end Steps

/-- A step that stays at its position leaves the rank alone. -/
theorem SStep.rank_eq (h : SStep opts s io t) (hm : t.pc=s.pc) :
    t.rank opts bytes=s.rank opts bytes := by
  cases h with
  | @stored p siz cnt i b hpc hlt =>
    have hf := fill_moved (storeAt_moved s.shm.buf ⟨p.area,p.off+i⟩ [b])
    unfold SSys.rank
    dsimp only
    rw [hf,hpc]
    rfl
  | rretry hpc he => rfl
  | wretry hpc he => rfl
  | epi hpc he =>
    cases he with
    | retry hr =>
      unfold SSys.rank
      dsimp only
      rw [hpc]
    | _ => cases hm.trans hpc
  | epiEnd hpc he => cases hm.trans hpc
  | @releasing p q g hpc hr => cases p <;> cases hr <;> cases hm.trans hpc
  | @rgrant cnt hpc hz hc => cases hm.trans hpc
  | _ hpc => cases hm.trans hpc

/-- The statements of a fed process are ranked. -/
theorem ranked (cfg : Config) (bytes : ℕ) :
    Ranked (step cfg.opts) (feeds bytes) SSys.pc (SSys.init cfg.buf)
      (SSys.rank cfg.opts bytes) := by
  have hr : cfg.opts.rcnt≠0 := Nat.one_le_iff_ne_zero.mp cfg.parsed.rcnt_pos
  have hw : cfg.opts.wcnt≠0 := Nat.one_le_iff_ne_zero.mp cfg.parsed.wcnt_pos
  have hlt : ∀ s a t,Run (step cfg.opts) (feeds bytes) (SSys.init cfg.buf) s → feeds bytes s a →
      step cfg.opts s a=some t → t.pc≠s.pc → t.rank cfg.opts bytes<s.rank cfg.opts bytes := by
    intro s a t h hn hs hm
    cases a with
    | task io =>
      exact SStep.rank_lt (LoopInv.run cfg h) (FedInv.run cfg h) hr hw hn (taskStep_cases hs) hm
    | signal =>
      cases hs
      exact absurd rfl hm
  refine ⟨fun s a t h hn hs => ?_,hlt⟩
  by_cases hm : t.pc=s.pc
  · cases a with
    | task io => exact ((taskStep_cases hs).rank_eq hm).le
    | signal =>
      cases hs
      unfold SSys.rank
      rw [signalStep_buf]
      exact le_refl _
  · exact (hlt s a t h hn hs hm).le

/-- A process that has not ended can go on at once, with calls that succeed and
writes that accept all they were offered, at the end of the input if not before. -/
theorem step_enabled (opts : OptionsS) (bytes : ℕ) (hpc : s.pc≠.ended)
    (hpos : ∀ n,s.pc.wphase.asked=some n → 0<n) :
    ∃ io t,io.calm=true ∧ s.pc.full io=true ∧ feeds bytes s (.task io) ∧
      step opts s (.task io)=some t ∧ t.pc≠s.pc := by
  obtain ⟨shm,tr,pc,hnd⟩ := s
  have hif : ∀ {c : Prop} [Decidable c] {x y : SSys},x.pc≠pc → y.pc≠pc →
      ∃ t,(if c then some x else some y)=some t ∧ t.pc≠pc := by
    intro c _ x y hx hy
    split
    · exact ⟨_,rfl,hx⟩
    · exact ⟨_,rfl,hy⟩
  cases pc with
  | openIn => exact ⟨.opened true,_,rfl,rfl,trivial,rfl,SPc.noConfusion⟩
  | openOut => exact ⟨.opened true,_,rfl,rfl,trivial,rfl,SPc.noConfusion⟩
  | releasing p =>
    refine ⟨.tau,_,rfl,rfl,trivial,rfl,fun h => ?_⟩
    cases p <;> cases h
  | top =>
    obtain ⟨t,ht,hne⟩ := hif (c:=shm.done=true) (x:=⟨shm,tr,.out false false,hnd⟩)
      (y:=⟨shm,tr,.rtest opts.rcnt,hnd⟩) SPc.noConfusion SPc.noConfusion
    exact ⟨.tau,t,rfl,rfl,trivial,ht,hne⟩
  | rtest cnt =>
    obtain ⟨t,ht,hne⟩ := hif (c:=(bufCanR shm.buf).1=0 ∨ cnt=0)
      (x:=⟨{shm with buf := (bufCanR shm.buf).2},tr,.wtest opts.wcnt,hnd⟩)
      (y:=⟨{shm with buf := (bufCanR shm.buf).2},tr,.rfetch (bufCanR shm.buf).1 (cnt-1),hnd⟩)
      SPc.noConfusion SPc.noConfusion
    exact ⟨.tau,t,rfl,rfl,trivial,ht,hne⟩
  | reading p siz cnt => exact ⟨.eof,_,rfl,rfl,trivial,rfl,SPc.noConfusion⟩
  | wtest cnt =>
    obtain ⟨t,ht,hne⟩ := hif (c:=(bufCanW shm.buf).1=0 ∨ cnt=0)
      (x:=⟨{shm with buf := (bufCanW shm.buf).2},tr,.top,hnd⟩)
      (y:=⟨{shm with buf := (bufCanW shm.buf).2},tr,.wfetch (bufCanW shm.buf).1 (cnt-1),hnd⟩)
      SPc.noConfusion SPc.noConfusion
    exact ⟨.tau,t,rfl,rfl,trivial,ht,hne⟩
  | writing p siz cnt =>
    have hsiz : 0<siz := hpos siz rfl
    exact ⟨.wrote siz,_,rfl,decide_eq_true rfl,hsiz,if_pos (le_refl siz),SPc.noConfusion⟩
  | out rneg wneg =>
    obtain ⟨t,ht,hne⟩ := hif (c:=wneg=true) (x:=⟨shm,tr,.fin true,hnd⟩)
      (y:=⟨shm,tr,.epi rneg .setlinew,hnd⟩) SPc.noConfusion SPc.noConfusion
    exact ⟨.tau,t,rfl,rfl,trivial,ht,hne⟩
  | epi rneg p =>
    obtain ⟨io,g,tr',q,he,hq,hcalm,hfull,hn⟩ := epi_calm opts shm tr p hpos
    have hfed : feeds bytes ⟨shm,tr,.epi rneg p,hnd⟩ (.task io) := by
      cases io with
      | wrote n => exact hn n rfl
      | data bs => cases p <;> cases he
      | _ => trivial
    cases q with
    | inl q =>
      refine ⟨io,⟨g,tr',.epi rneg q,hnd⟩,hcalm,by cases io <;> exact hfull,hfed,
        by simp [step,taskStep,he],fun h => hq ?_⟩
      cases h
      rfl
    | inr failed =>
      exact ⟨io,⟨g,tr',.fin (rneg || failed),hnd⟩,hcalm,by cases io <;> exact hfull,hfed,
        by simp [step,taskStep,he],SPc.noConfusion⟩
  | fin neg =>
    obtain ⟨t,ht,hne⟩ := hif (c:=neg=true)
      (x:=⟨{shm with errlog := Function.update shm.errlog (errErr+Role.arbiter.idx) true},tr,
        .ended,hnd⟩)
      (y:=⟨shm,tr,.ended,hnd⟩) SPc.noConfusion SPc.noConfusion
    exact ⟨.tau,t,rfl,rfl,trivial,ht,hne⟩
  | ended => exact absurd rfl hpc
  | _ => exact ⟨.tau,_,rfl,rfl,trivial,rfl,SPc.noConfusion⟩

/-- Progress and end of the single process. In every reachable state at the top
of its loop before `done`, a refused read decision leaves a buffer that does not
refuse the write decision, and the loop does not come round or end before a
call was made. Fed by a finite input and an output that accepts something of
every write, the process executes a bounded number of statements, can always go
on to another one before its end, from everywhere reaches its end, and does so in
every run that does not rest for ever at a statement. -/
theorem single_task_progress (cfg : Config) :
    (∀ s,Reach (step cfg.opts) (SSys.init cfg.buf) s → s.pc=.top → s.shm.done=false →
      ((bufCanR s.shm.buf).1=0 → (bufCanW (bufCanR s.shm.buf).2).1≠0) ∧
      ∀ t,step cfg.opts s (.task .tau)=some t → ∀ u,Run (step cfg.opts) noCall t u →
        u.pc≠.top ∧ ∀ rneg wneg,u.pc≠.out rneg wneg) ∧
    ∀ bytes,Ends (step cfg.opts) (feeds bytes) SSys.pc (SSys.init cfg.buf)
      fun s => s.pc=.ended := by
  refine ⟨fun s h hpc hd => ?_,fun bytes => (ranked cfg bytes).ends fun s h hpc => ?_⟩
  · have hi := LoopInv.run cfg h
    refine ⟨hi.not_both hpc,fun t hs u hu => ?_⟩
    have hlive := hi.live hpc (Nat.one_le_iff_ne_zero.mp cfg.parsed.rcnt_pos)
      (Nat.one_le_iff_ne_zero.mp cfg.parsed.wcnt_pos)
    have hstart : Awaits cfg.opts t.shm.buf t.pc := by
      cases taskStep_cases hs with
      | round _ _ => exact hlive
      | stop _ hdone => cases hd.symm.trans hdone
      | _ hp => cases hp.symm.trans hpc
    have hend := hu.invariant (I:=fun u => Awaits cfg.opts u.shm.buf u.pc) hstart
      fun _ _ _ ha hn hs => Awaits.step ha hn hs
    refine ⟨fun hp => ?_,fun rneg wneg hp => ?_⟩ <;> rw [hp] at hend <;> exact hend
  · have hmoves : Moves cfg.opts false (.init cfg.buf) s.view :=
      view_moves (fun hf => by cases hf) h
    obtain ⟨io,t,_,_,hn,hs,hm⟩ := step_enabled cfg.opts bytes hpc (asked_pos hmoves)
    exact ⟨.task io,t,hn,hs,hm⟩

end Yancat.SingleTask
