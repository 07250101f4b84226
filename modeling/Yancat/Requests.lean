import Yancat.Blocks
import Yancat.StreamMoves

/-!
# Write requests

Before the epilogue a block-mode writer is granted whole blocks only, whichever
side decides. In strict mode every request is therefore a block, the padded
ones included. While writes accept all they are offered, the requests so far
are the blocks of what was published, so that at the end they are the blocks of
the input.
-/

namespace Yancat.ByteStream

open Crc RingWindow WordArithmetic Buffer Setup Shared Blocks

/-- The write decision has the same two limits. -/
def SameLimits (buf buf' : BufS) : Prop := buf'.wmin=buf.wmin ∧ buf'.wblk=buf.wblk

/-- Moving bytes about keeps the limits. -/
theorem SameLimits.moved {buf buf' : BufS} (h : Moved buf buf') : SameLimits buf buf' := by
  obtain ⟨_,_,_,_,_,_,_,_,rfl⟩ := h
  exact ⟨rfl,rfl⟩

/-- A read decision keeps the limits. -/
theorem SameLimits.canR (buf : BufS) : SameLimits buf (bufCanR buf).2 := by
  obtain ⟨st,hs⟩ := bufCanR_snd buf
  rw [hs]
  exact ⟨rfl,rfl⟩

/-- A write decision keeps the limits. -/
theorem SameLimits.canW (buf : BufS) : SameLimits buf (bufCanW buf).2 := by
  obtain ⟨st,hs⟩ := bufCanW_snd buf
  rw [hs]
  exact ⟨rfl,rfl⟩

/-- Before the epilogue, grants are whole blocks. -/
structure BlockGrants (opts : OptionsS) (v : View) : Prop where
  /-- The block is the requested one. -/
  wblk : v.buf.wblk=opts.wblk
  /-- The writer is in block mode. -/
  block : v.drains=false → BlockWriter v.buf
  /-- A held grant is a block. -/
  granted : ∀ siz,v.wp=.granted siz → siz=opts.wblk

variable {opts : OptionsS} {full : Bool} {v v' : View}

/-- A move of the reading side, or one that begins no grant. -/
theorem BlockGrants.of (hi : BlockGrants opts v) (hs : SameLimits v.buf v'.buf)
    (hd : v'.drains=false → v.drains=false)
    (hg : ∀ siz,v'.wp=.granted siz → v.wp=.granted siz) : BlockGrants opts v' where
  wblk := hs.2.trans hi.wblk
  block := fun hn => hs.1.trans ((hi.block (hd hn)).trans hs.2.symm)
  granted := fun siz hp => hi.granted siz (hg siz hp)

/-- Every move keeps grants whole. -/
theorem BlockGrants.move (hi : BlockGrants opts v) (h : Move opts full v v') :
    BlockGrants opts v' := by
  cases h with
  | canR => exact hi.of (.canR _) id fun _ => id
  | grantR hz => exact hi.of (.canR _) id fun _ => id
  | dropR => exact hi.of ⟨rfl,rfl⟩ id fun _ => id
  | abandonR => exact hi.of ⟨rfl,rfl⟩ id fun _ => id
  | close => exact hi.of ⟨rfl,rfl⟩ id fun _ => id
  | fetchR => exact hi.of (.moved (bufFetchR_moved _ _)) id fun _ => id
  | stored hle => exact hi.of (.moved (storeAt_moved _ _ _)) id fun _ => id
  | data hpos hle => exact hi.of (.moved (storeAt_moved _ _ _)) id fun _ => id
  | commitR => exact hi.of (.moved (bufCommitR_moved _ _)) id fun _ => id
  | commitRf => exact hi.of ⟨rfl,rfl⟩ id fun _ => id
  | canW => exact hi.of (.canW _) id fun _ => id
  | @grantW buf tr rp hz =>
    have hs := SameLimits.canW buf
    have hb : BlockWriter buf := hi.block rfl
    refine ⟨hs.2.trans hi.wblk,fun _ => hs.1.trans (hb.trans hs.2.symm),fun siz hp => ?_⟩
    cases hp
    exact (BufOk.grantW_block hb hz).trans hi.wblk
  | grantFinal hz => exact hi.of (.canW _) id fun _ hp => by cases hp
  | dropW => exact hi.of ⟨rfl,rfl⟩ id fun _ hp => by cases hp
  | abandonW hf => exact hi.of ⟨rfl,rfl⟩ id fun _ hp => by cases hp
  | fetchW => exact hi.of (.moved (bufFetchW_moved _ _)) id fun _ hp => by cases hp
  | fetchFinal => exact hi.of (.moved (epiFetch_moved opts _ _)) id fun _ hp => by cases hp
  | wrote hk hz hl hf => exact hi.of ⟨rfl,rfl⟩ id fun _ hp => by cases hp
  | commitW => exact hi.of (.moved (bufCommitW_moved _ _)) id fun _ hp => by cases hp
  | commitWf => exact hi.of ⟨rfl,rfl⟩ id fun _ hp => by cases hp
  | leave => exact hi.of ⟨rfl,rfl⟩ (fun hd => by cases hd) fun _ => id
  | setlinew => exact ⟨hi.wblk,nofun,nofun⟩
  | note => exact hi.of ⟨rfl,rfl⟩ id fun _ => id

/-- Grants are whole after any moves of a block-mode writer. -/
theorem BlockGrants.moves (cfg : Config) (hw : cfg.opts.wline=false)
    (h : Moves cfg.opts full (.init cfg.buf) v) : BlockGrants cfg.opts v :=
  h.invariant ⟨cfg.fresh.wblk,fun _ => cfg.blockWriter hw,nofun⟩ fun _ _ hi hm => hi.move hm

/-- The padding that the epilogue adds to a grant. -/
theorem epiFetch_pad (opts : OptionsS) (buf : BufS) (siz : ℕ) :
    (epiFetch opts buf siz).2.1=if siz<opts.wblk ∧ opts.strict=true then opts.wblk-siz else 0 := by
  unfold epiFetch
  split <;> rfl

/-- In strict mode every move requests a whole block or nothing. -/
theorem BlockGrants.strict_move (hg : BlockGrants opts v) (hd : DataInv opts v)
    (hs : opts.strict=true) (hi : ∀ r∈v.tr.reqs,r.length=opts.wblk) (h : Move opts full v v') :
    ∀ r∈v'.tr.reqs,r.length=opts.wblk := by
  cases h with
  | fetchW =>
    intro r hr
    rcases List.mem_append.mp hr with hr|hr
    · exact hi r hr
    · rw [List.mem_singleton.mp hr,loadAt_length]
      exact hg.granted _ rfl
  | @fetchFinal buf tr rp d siz =>
    have hle : siz≤buf.wblk := hd.stream.writer.2.1.2.1
    have hwblk : buf.wblk=opts.wblk := hg.wblk
    intro r hr
    rcases List.mem_append.mp hr with hr|hr
    · exact hi r hr
    · rw [List.mem_singleton.mp hr,loadAt_length,epiFetch_pad]
      by_cases hlt : siz<opts.wblk
      · rw [if_pos ⟨hlt,hs⟩]
        omega
      · rw [if_neg fun h => hlt h.1]
        omega
  | _ => exact hi

/-- In strict mode every request after any moves is a whole block. -/
theorem strict_moves (cfg : Config) (hb : cfg.opts.rline=false) (hw : cfg.opts.wline=false)
    (hs : cfg.opts.strict=true) (h : Moves cfg.opts false (.init cfg.buf) v) :
    ∀ r∈v.tr.reqs,r.length=cfg.opts.wblk := by
  induction h with
  | refl => exact nofun
  | tail hr hm ih =>
    exact (BlockGrants.moves cfg hw hr).strict_move (DataInv.moves cfg (.inl hb) hr) hs ih hm

/-- The byte that fills a short block up, if that is asked for. -/
def padByte (opts : OptionsS) : Option Byte := if opts.strict=true then some 0 else none

/-- Stream bytes that the writing side has requested and not yet released. -/
def WPhase.offered : WPhase → ℕ
  | .fetched _ siz _ => siz
  | .wrote k _ => k
  | .counted k _ => k
  | _ => 0

/-- The requests so far are the blocks of what was published, none of them
empty, and all of them whole while the reading side is open. -/
structure Reblocked (opts : OptionsS) (v : View) : Prop where
  /-- The requests. -/
  reqs : v.tr.reqs=
    (List.range v.tr.reqs.length).map (block opts.wblk (padByte opts) (flow v.tr).sent)
  /-- No request is empty. -/
  last : 0<v.tr.reqs.length → (v.tr.reqs.length-1)*opts.wblk<(flow v.tr).sent.length
  /-- While more may come, every request is whole. -/
  whole : v.rp≠.closed → v.tr.reqs.length*opts.wblk≤(flow v.tr).sent.length
  /-- What was requested is released or about to be. -/
  released : v.tr.cout+v.wp.offered=min (v.tr.reqs.length*opts.wblk) (flow v.tr).sent.length

/-- A move that publishes and requests nothing. -/
theorem Reblocked.of (hi : Reblocked opts v) (hs : (flow v'.tr).sent=(flow v.tr).sent)
    (hr : v'.tr.reqs=v.tr.reqs) (hc : v'.tr.cout+v'.wp.offered=v.tr.cout+v.wp.offered)
    (hp : v.rp=.closed → v'.rp=.closed) : Reblocked opts v' where
  reqs := by
    rw [hr,hs]
    exact hi.reqs
  last := by
    rw [hr,hs]
    exact hi.last
  whole := fun hn => by
    rw [hr,hs]
    exact hi.whole fun he => hn (hp he)
  released := by
    rw [hc,hr,hs]
    exact hi.released

/-- Publishing more leaves the blocks alone, all of them being whole. -/
theorem Reblocked.publish {more : List Byte} (hi : Reblocked opts v) (ho : v.rp≠.closed)
    (hs : (flow v'.tr).sent=(flow v.tr).sent++more) (hr : v'.tr.reqs=v.tr.reqs)
    (hc : v'.tr.cout+v'.wp.offered=v.tr.cout+v.wp.offered) : Reblocked opts v' := by
  have hw := hi.whole ho
  have hrel := hi.released
  rw [Nat.min_eq_left hw] at hrel
  exact {
    reqs := by
      rw [hr,hs,map_block_append hw]
      exact hi.reqs
    last := fun hn => by
      rw [hr] at hn ⊢
      rw [hs,List.length_append]
      exact (hi.last hn).trans_le (Nat.le_add_right _ _)
    whole := fun _ => by
      rw [hr,hs,List.length_append]
      exact hw.trans (Nat.le_add_right _ _)
    released := by
      rw [hc,hr,hs,List.length_append,hrel,Nat.min_eq_left (hw.trans (Nat.le_add_right _ _))]}

/-- A grant that is whole, or the rest of a closed stream, is the next block. -/
theorem Reblocked.request (hi : Reblocked opts v) (siz pad : ℕ) (hd : DataInv opts v)
    (hidle : v.wp.offered=0) (hg : GrantW v.buf siz)
    (hsiz : siz=opts.wblk ∨ siz=fill v.buf ∧ v.rp=.closed)
    (hpad : List.replicate pad (0 : Byte)=filling opts.wblk (padByte opts) siz)
    (hr : v'.tr.reqs=v.tr.reqs++
      [((flow v.tr).sent.drop v.tr.cout).take siz++List.replicate pad 0])
    (hs : (flow v'.tr).sent=(flow v.tr).sent) (hc : v'.tr.cout=v.tr.cout)
    (hw : v'.wp.offered=siz) (hp : v'.rp=v.rp) : Reblocked opts v' := by
  obtain ⟨hpos,hblk,hfill⟩ := hg
  have hwblk := hd.stream.wblk
  have hcount : (flow v.tr).sent.length=v.tr.cout+fill v.buf := hd.stream.count
  have hrel := hi.released
  rw [hidle,Nat.add_zero] at hrel
  -- nothing is on its way, so all requests before this one were whole blocks
  generalize hsent : (flow v.tr).sent=sent at hrel hcount hs hr
  generalize hn : v.tr.reqs.length=n at hrel
  have hcout : v.tr.cout=n*opts.wblk := by omega
  have hlen : v'.tr.reqs.length=n+1 := by rw [hr,List.length_append,hn]; rfl
  have hmul : (n+1)*opts.wblk=v.tr.cout+opts.wblk := by rw [Nat.add_mul,Nat.one_mul,hcout]
  have htake : (sent.drop v.tr.cout).take siz=(sent.drop v.tr.cout).take opts.wblk := by
    rcases hsiz with hz|⟨hz,_⟩
    · rw [hz]
    · rw [List.take_of_length_le (by rw [List.length_drop]; omega),
        List.take_of_length_le (by rw [List.length_drop]; omega)]
  have hblock : (sent.drop v.tr.cout).take siz++List.replicate pad 0=
      block opts.wblk (padByte opts) sent n := by
    have hl : ((sent.drop v.tr.cout).take opts.wblk).length=siz := by
      rw [←htake,List.length_take,List.length_drop]
      omega
    rw [block,←hcout,hl,hpad,htake]
  exact {
    reqs := by
      have hq := hi.reqs
      rw [hn,hsent] at hq
      rw [hlen,hs,List.range_succ,List.map_append,hr,hblock,←hq]
      rfl
    last := fun _ => by
      rw [hlen,hs,Nat.add_sub_cancel,←hcout]
      omega
    whole := fun ho => by
      rw [hp] at ho
      rw [hlen,hs,hmul]
      rcases hsiz with hz|⟨_,hz⟩
      · omega
      · exact absurd hz ho
    released := by
      rw [hlen,hs,hc,hw,hmul]
      rcases hsiz with hz|⟨hz,_⟩ <;> omega}

/-- Every move in which writes accept all they are offered keeps the requests
blocks. -/
theorem Reblocked.move (hi : Reblocked opts v) (hd : DataInv opts v) (hg : BlockGrants opts v)
    (hb : opts.rline=false) (h : Move opts true v v') : Reblocked opts v' := by
  have hd' := hd.move (.inl hb) h
  cases h with
  | grantR hz => exact hi.of rfl rfl rfl nofun
  | dropR => exact hi.of rfl rfl rfl nofun
  | abandonR => exact hi.of rfl rfl rfl nofun
  | close => exact hi.of rfl rfl rfl nofun
  | fetchR => exact hi.of rfl rfl rfl nofun
  | data hpos hle => exact hi.of (List.take_append_of_le_length hd.cin_le) rfl rfl nofun
  | commitR => exact hi.of rfl rfl rfl nofun
  | @commitRf buf tr wp d n =>
    have hf := (flow_publish tr hd.cin_le hd.stream.reader.1).2
    exact hi.publish nofun (congrArg Flow.sent hf) rfl rfl
  | abandonW hf => cases hf
  | @fetchW buf tr rp d siz =>
    have hw : siz=opts.wblk := hg.granted siz rfl
    obtain ⟨_,hp,hoff⟩ := hd'.stream.writer
    have hb := hoff.bytes
    rw [←hp] at hb
    refine hi.request siz 0 hd rfl hd.stream.writer.2 (.inl hw) ?_ ?_ rfl rfl rfl rfl
    · rw [hw,filling_whole]
      rfl
    · exact congrArg (fun r => tr.reqs++[r]) hb
  | @fetchFinal buf tr rp d siz =>
    obtain ⟨_,hgr,hcl,hlast⟩ := hd.stream.writer
    have hwblk : buf.wblk=opts.wblk := hg.wblk
    have hle : siz≤buf.wblk := hgr.2.1
    obtain ⟨_,hp,hoff⟩ := hd'.stream.writer
    have hb := hoff.bytes
    rw [←hp] at hb
    refine hi.request siz (epiFetch opts buf siz).2.1 hd rfl hgr ?_ ?_ ?_ rfl rfl rfl
      rfl
    · exact hlast.imp (fun h => h.trans hwblk) fun h => ⟨h,hcl⟩
    · rw [epiFetch_pad,padByte]
      cases hst : opts.strict with
      | true =>
        by_cases hlt : siz<opts.wblk
        · rw [if_pos ⟨hlt,rfl⟩,if_pos rfl]
          rfl
        · rw [if_neg fun h => hlt h.1,show siz=opts.wblk by omega,filling_whole]
          rfl
      | false =>
        rw [if_neg fun h => Bool.false_ne_true h.2,if_neg Bool.false_ne_true]
        rfl
    · exact congrArg (fun r => tr.reqs++[r]) hb
  | @wrote buf tr rp d p siz pad k z hk hz hl hf =>
    have hs := hf rfl
    exact hi.of rfl rfl (congrArg (tr.cout+·) (by change k=siz; omega)) id
  | @commitWf buf tr rp d k z => exact hi.of rfl rfl (Nat.add_zero _) id
  | _ => exact hi.of rfl rfl rfl id

/-- The requests are blocks after any moves in which writes accept all they are
offered. -/
theorem Reblocked.moves (cfg : Config) (hb : cfg.opts.rline=false) (hw : cfg.opts.wline=false)
    (h : Moves cfg.opts true (.init cfg.buf) v) : Reblocked cfg.opts v := by
  induction h with
  | refl =>
    have hz : 0*cfg.opts.wblk=0 := Nat.zero_mul _
    exact ⟨rfl,nofun,fun _ => hz.le,(congrArg (min · 0) hz).symm⟩
  | tail hr hm ih =>
    exact ih.move (DataInv.moves cfg (.inl hb) hr) (BlockGrants.moves cfg hw hr) hb hm

/-- At the end the requests are the blocks of the input. -/
theorem Reblocked.all (hi : Reblocked opts v) (hd : DataInv opts v) (hr : v.rp=.closed)
    (hw : v.wp=.idle) (hz : fill v.buf=0) (hpos : 0<opts.wblk) :
    v.tr.reqs=blocks opts.wblk (padByte opts) v.tr.inp := by
  have hst := hd.stream
  have hcount : (flow v.tr).sent.length=v.tr.cout+fill v.buf := hst.count
  have hrd := hst.reader
  rw [hr] at hrd
  have hpend : v.tr.inp.drop v.tr.cin=[] := hrd
  have hsent : (flow v.tr).sent=v.tr.inp := by
    have hall := flow_all v.tr
    rwa [show (flow v.tr).pending=[] from hpend,List.append_nil] at hall
  have hrel := hi.released
  have hq := hi.reqs
  have hlast := hi.last
  rw [hw] at hrel
  rw [hsent] at hcount hrel hq hlast
  change v.tr.cout+0=_ at hrel
  rw [blocks_eq (n:=v.tr.reqs.length) hpos hlast (by omega)]
  exact hq

end Yancat.ByteStream
