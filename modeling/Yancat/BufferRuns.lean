import Yancat.StreamMoves

/-!
# Runs of the buffer operations

The law stated above `buf_can_r`: a grant is strictly smaller than the free
space, for otherwise the indices meet over a full ring and everything in it is
forgotten. It is kept by every grant but one, the short grant of a reader in
line mode that finds more than a byte and at most a block of free space.
-/

namespace Yancat.BufferRuns

open Crc RingWindow Buffer Setup Shared ByteStream

/-- Moves none of which takes a read grant of all the free space. -/
abbrev FitMoves (opts : OptionsS) : View → View → Prop :=
  Relation.ReflTransGen fun v v' => Move opts false v v' ∧ Fits v v'

/-- The law of the ring. -/
structure Law (v : View) : Prop where
  /-- A read grant is strictly smaller than the free space. -/
  grant : ∀ siz,v.rp=.granted siz → siz<v.buf.size-(v.tr.cin-v.tr.cout)
  /-- The ring is never full. -/
  fill : v.tr.cin-v.tr.cout<v.buf.size
  /-- Equal indices mean an empty ring. -/
  empty : v.buf.got=v.buf.did → v.tr.cin=v.tr.cout
  /-- The unread bytes are in the ring. -/
  unread : window v.buf.size v.buf.did (v.tr.cin-v.tr.cout) v.buf.ptr=
    (v.tr.inp.take v.tr.cin).drop v.tr.cout

variable {opts : OptionsS} {full : Bool} {v v' : View}

/-- The number of unread bytes is the fill. -/
theorem DataInv.unread (hi : DataInv opts v) : v.tr.cin=v.tr.cout+Buffer.fill v.buf := by
  have hcount : (flow v.tr).sent.length=v.tr.cout+Buffer.fill v.buf := hi.stream.count
  rwa [flow_sent_length _ hi.cin_le] at hcount

/-- The stream invariant contains the law. -/
theorem DataInv.law (hi : DataInv opts v) : Law v := by
  have hu := DataInv.unread hi
  have hst := hi.stream
  have hlt := hst.ok.fill_lt
  have hdiff : v.tr.cin-v.tr.cout=Buffer.fill v.buf := by omega
  refine ⟨fun siz hp => ?_,?_,fun he => ?_,?_⟩
  · have hr := hst.reader
    rw [hp] at hr
    have hg := hr.2.2.2
    omega
  · omega
  · have hz := hst.ok.fill_of_eq he
    omega
  · rw [hdiff]
    exact hst.ring

/-- Moves without such a grant keep the stream invariant. -/
theorem FitMoves.data (cfg : Config) (h : FitMoves cfg.opts (.init cfg.buf) v) :
    DataInv cfg.opts v := by
  induction h with
  | refl => exact .init cfg
  | tail _ hm ih => exact ih.fit_move hm.1 hm.2

/-- A read grant is the answer of a read decision. -/
theorem Move.grant (h : Move opts full v v') {siz : ℕ} (hr : v.rp=.idle)
    (hg : v'.rp=.granted siz) :
    siz=(bufCanR v.buf).1 ∧ v'.buf=(bufCanR v.buf).2 ∧ v'.tr=v.tr := by
  cases h with
  | grantR hz =>
    cases hg
    exact ⟨rfl,rfl,rfl⟩
  | _ => first | cases hr.symm.trans hg | cases hg

/-- A grant of all the free space breaks the law at once. -/
theorem Fits.broken (hi : DataInv opts v) (h : Move opts full v v') (hn : ¬Fits v v') :
    ¬Law v' := by
  have hu := DataInv.unread hi
  have hs := hi.stream.ok.space_eq
  unfold Fits at hn
  simp only [not_forall,not_not] at hn
  obtain ⟨siz,hr,hg,hf⟩ := hn
  obtain ⟨h1,h2,h3⟩ := Move.grant h hr hg
  rw [hf.canR] at h1 h2
  dsimp only at h1 h2
  intro hl
  have hlt := hl.grant siz hg
  rw [h2,h3] at hlt
  omega

/-- A read of some bytes under a grant, with nothing of the writing side in
between. -/
theorem read_moves (opts : OptionsS) {buf : BufS} (tr : Trace) (bs : List Byte)
    (hz : (bufCanR buf).1≠0) (hpos : 0<bs.length) (hle : bs.length≤(bufCanR buf).1) :
    ∃ buf',Moved (bufCanR buf).2 buf' ∧
      Moves opts false ⟨buf,tr,.idle,.idle,false⟩
        ⟨bufCommitRf buf' bs.length,
          {tr with inp := tr.inp++bs,cin := tr.cin+bs.length},.idle,.idle,false⟩ := by
  refine ⟨_,((bufFetchR_moved _ (bufCanR buf).1).trans
    (storeAt_moved _ (bufFetchR (bufCanR buf).2 (bufCanR buf).1).1 bs)).trans
    (bufCommitR_moved _ bs.length),?_⟩
  exact .head (.grantR hz) <| .head .fetchR <| .head (.data hpos hle) <| .head .commitR <|
    .single .commitRf

/-- A ring of a reader in line mode with a number of unread bytes. -/
structure Loaded (k : ℕ) (buf : BufS) : Prop where
  /-- The geometry. -/
  ok : BufOk buf
  /-- The bytes held. -/
  fill : Buffer.fill buf=k
  /-- Reads are not stalled. -/
  rstall : buf.rstall=false
  /-- The read block. -/
  rblk : 2≤buf.rblk
  /-- The read minimum. -/
  rmin : buf.rmin=1

/-- Two free bytes and no more are granted both. -/
theorem Loaded.filling {k : ℕ} {buf : BufS} (h : Loaded k buf) (hk : k+2=buf.size) :
    Filling buf ∧ space buf=2 := by
  have hs := h.ok.space_eq
  have hf := h.fill
  have hb := h.rblk
  have hm := h.rmin
  have hsp : space buf=2 := by omega
  exact ⟨⟨h.rstall,by omega,by omega⟩,hsp⟩

/-- More than one free byte is granted, without stalling. -/
theorem Loaded.grant {k : ℕ} {buf : BufS} (h : Loaded k buf) (hk : k+2≤buf.size) :
    1<(bufCanR buf).1 ∧ (bufCanR buf).2=buf := by
  have hs := h.ok.space_eq
  have hf := h.fill
  have hb := h.rblk
  have hm := h.rmin
  cases bufCanR_cases buf with
  | held hst => exact absurd (h.rstall.symm.trans hst) Bool.false_ne_true
  | resume hst => exact absurd (h.rstall.symm.trans hst) Bool.false_ne_true
  | block _ _ hc =>
    rw [hc]
    exact ⟨hb,rfl⟩
  | short _ _ hlt hc =>
    rw [hc]
    exact ⟨by dsimp only; omega,rfl⟩
  | stall _ _ hle => omega
  | refuse _ _ hle => omega

/-- One byte more is read while two are free. -/
theorem Loaded.next {k : ℕ} {buf : BufS} (h : Loaded k buf) (opts : OptionsS) (tr : Trace)
    (hk : k+2≤buf.size) :
    ∃ buf',buf'.size=buf.size ∧ Loaded (k+1) buf' ∧
      Moves opts false ⟨buf,tr,.idle,.idle,false⟩
        ⟨buf',{tr with inp := tr.inp++[0],cin := tr.cin+1},.idle,.idle,false⟩ := by
  obtain ⟨hg,hsame⟩ := h.grant hk
  obtain ⟨buf1,hm,hr⟩ := read_moves opts tr [0]
    (by omega : (bufCanR buf).1≠0) (Nat.one_pos) hg.le
  rw [hsame] at hm
  have hok := hm.ok h.ok
  obtain ⟨_,_,_,_,_,_,_,_,rfl⟩ := hm
  have hf := h.fill
  refine ⟨bufCommitRf _ 1,?_,?_,hr⟩
  · rfl
  exact {
    ok := hok.commitRf 1
    fill := by
      have hfill := hok.fill_commitRf (n:=1) (by change Buffer.fill buf+1<buf.size; omega)
      exact hfill.trans (congrArg (·+1) hf)
    rstall := h.rstall
    rblk := h.rblk
    rmin := h.rmin}

/-- A reader in line mode can load the ring up to two free bytes. -/
theorem Loaded.all (cfg : Config) (hl : cfg.opts.rline=true) (hb : 2≤cfg.opts.rblk) {k : ℕ}
    (hk : k+2≤cfg.buf.size) :
    ∃ buf tr,buf.size=cfg.buf.size ∧ Loaded k buf ∧ tr.cin=k ∧ tr.cout=0 ∧
      Moves cfg.opts false (.init cfg.buf) ⟨buf,tr,.idle,.idle,false⟩ := by
  induction k with
  | zero =>
    have hf := cfg.fresh
    refine ⟨cfg.buf,Trace.init,rfl,⟨cfg.ok,cfg.fill_zero,hf.rstall,?_,?_⟩,rfl,rfl,.refl⟩
    · rw [hf.rblk]
      exact hb
    · rw [hf.rmin,if_pos hl]
  | succ k ih =>
    obtain ⟨buf,tr,hs,hload,hcin,hcout,hm⟩ := ih (by omega)
    obtain ⟨buf',hs',hload',hm'⟩ := hload.next cfg.opts tr (by omega)
    exact ⟨buf',{tr with inp := tr.inp++[0],cin := tr.cin+1},hs'.trans hs,hload',
      congrArg (·+1) hcin,hcout,hm.trans hm'⟩

/-- A reader in line mode with read blocks of two bytes or more can fill the
ring until the indices meet, with every byte of it unread. -/
theorem forgets (cfg : Config) (hl : cfg.opts.rline=true) (hb : 2≤cfg.opts.rblk) :
    ∃ v,Moves cfg.opts false (.init cfg.buf) v ∧ v.buf.got=v.buf.did ∧
      v.tr.cin-v.tr.cout=v.buf.size := by
  have hok := cfg.ok
  have hfit := hok.rfit
  have hwp := hok.wblk_pos
  have hrb := cfg.fresh.rblk
  obtain ⟨buf,tr,hs,hload,hcin,hcout,hm⟩ := Loaded.all cfg hl hb
    (by omega : cfg.buf.size-2+2≤cfg.buf.size)
  obtain ⟨hf,hsp⟩ := hload.filling (by omega)
  have hcan := hf.canR
  rw [hsp] at hcan
  obtain ⟨buf1,hmv,hr⟩ := read_moves cfg.opts tr [0,0]
    (by rw [hcan]; exact two_ne_zero) Nat.two_pos (by rw [hcan]; exact le_refl 2)
  rw [hcan] at hmv
  obtain ⟨_,_,_,_,_,_,_,_,rfl⟩ := hmv
  refine ⟨_,hm.trans hr,?_,?_⟩
  · -- the index moves by the free space and meets the other one
    have hok' : BufOk buf := hload.ok
    have hgot := hok'.got_eq
    have hfill := hload.fill
    have hdid := hok'.did_lt
    have hnew := hok'.commitRf_got 2
    change (bufCommitRf buf 2).got=buf.did
    rw [hnew,←hgot,Nat.mod_add_mod,hfill,Nat.add_assoc,
      show cfg.buf.size-2+2=buf.size by omega,Nat.add_mod_right,Nat.mod_eq_of_lt hdid]
  · change tr.cin+2-tr.cout=buf.size
    omega

/-- The law of the ring. Runs of the buffer operations in which no read decision
grants all the free space keep it; such a grant breaks it at once; and a
configuration keeps it in all runs exactly if its reader is in block mode or
reads single bytes. -/
theorem buffer_law (cfg : Config) :
    (∀ v,FitMoves cfg.opts (.init cfg.buf) v → Law v) ∧
    (∀ v v',FitMoves cfg.opts (.init cfg.buf) v → Move cfg.opts false v v' → ¬Fits v v' →
      ¬Law v') ∧
    ((∀ v,Moves cfg.opts false (.init cfg.buf) v → Law v) ↔
      cfg.opts.rline=false ∨ cfg.opts.rblk=1) := by
  refine ⟨fun v h => DataInv.law (FitMoves.data cfg h),
    fun v v' h hm hn => Fits.broken (FitMoves.data cfg h) hm hn,fun hall => ?_,
    fun hb v h => DataInv.law (.moves cfg hb h)⟩
  have hpos := cfg.parsed.rblk_pos
  by_contra hn
  rw [not_or] at hn
  obtain ⟨v,hv,he,hu⟩ := forgets cfg (Bool.eq_true_of_not_eq_false hn.1) (by omega)
  have hl := hall v hv
  have hz := hl.empty he
  have hlt := hl.fill
  omega

/-- A reader in line mode with blocks of two bytes makes a full ring look
empty. -/
theorem buffer_law_broken :
    ∃ v,Moves (small true false).opts false (.init (small true false).buf) v ∧
      v.buf.got=v.buf.did ∧ v.tr.cin-v.tr.cout=v.buf.size ∧ ¬Law v := by
  obtain ⟨v,hv,he,hu⟩ := forgets (small true false) rfl (le_refl 2)
  refine ⟨v,hv,he,hu,fun hl => ?_⟩
  have hlt := hl.fill
  omega

end Yancat.BufferRuns
