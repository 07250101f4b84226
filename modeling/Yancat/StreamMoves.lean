import Yancat.ByteStream
import Yancat.Transition

/-!
# Moves of the two sides

What a transfer driver does to the buffer and to the record of its calls,
whatever its control flow: a move is one buffer operation of one side, or one
outcome of its call. Either driver is shown elsewhere to be made of moves, so
that what every move keeps holds in every run of both.
-/

namespace Yancat.ByteStream

open Crc RingWindow WordArithmetic Buffer Setup Shared

/-- What the stream depends on in the state of a driver. -/
structure View where
  /-- The buffer object. -/
  buf : BufS
  /-- What was moved. -/
  tr : Trace
  /-- The reading side's position. -/
  rp : RPhase
  /-- The writing side's position. -/
  wp : WPhase
  /-- The writing side is in its epilogue or past it. -/
  drains : Bool

variable {opts : OptionsS} {full : Bool} {v v' : View}

/-- One move. With `full` set, every write accepts all it was offered. -/
inductive Move (opts : OptionsS) (full : Bool) : View → View → Prop
  /-- A read decision without a grant. -/
  | canR {buf tr rp wp d} : Move opts full ⟨buf,tr,rp,wp,d⟩ ⟨(bufCanR buf).2,tr,rp,wp,d⟩
  /-- A read grant. -/
  | grantR {buf tr wp d} (hz : (bufCanR buf).1≠0) :
    Move opts full ⟨buf,tr,.idle,wp,d⟩ ⟨(bufCanR buf).2,tr,.granted (bufCanR buf).1,wp,d⟩
  /-- A read grant is given up. -/
  | dropR {buf tr wp d} {siz : ℕ} : Move opts full ⟨buf,tr,.granted siz,wp,d⟩ ⟨buf,tr,.idle,wp,d⟩
  /-- A read area is given up. -/
  | abandonR {buf tr wp d} {p : Ptr} {siz : ℕ} :
    Move opts full ⟨buf,tr,.fetched p siz,wp,d⟩ ⟨buf,tr,.idle,wp,d⟩
  /-- The reading side makes no further transfer. -/
  | close {buf tr wp d} : Move opts full ⟨buf,tr,.idle,wp,d⟩ ⟨buf,tr,.closed,wp,d⟩
  /-- The area of a read grant is fetched. -/
  | fetchR {buf tr wp d} {siz : ℕ} : Move opts full ⟨buf,tr,.granted siz,wp,d⟩
    ⟨(bufFetchR buf siz).2,tr,.fetched (bufFetchR buf siz).1 siz,wp,d⟩
  /-- The read call stores into its area. -/
  | stored {buf tr wp d} {p : Ptr} {siz i : ℕ} {bs : List Byte} (hi : i+bs.length ≤ siz) :
    Move opts full ⟨buf,tr,.fetched p siz,wp,d⟩
      ⟨storeAt buf ⟨p.area,p.off+i⟩ bs,tr,.fetched p siz,wp,d⟩
  /-- The read call returns bytes. -/
  | data {buf tr wp d} {p : Ptr} {siz : ℕ} {bs : List Byte} (hpos : 0<bs.length)
    (hle : bs.length ≤ siz) :
    Move opts full ⟨buf,tr,.fetched p siz,wp,d⟩
      ⟨storeAt buf p bs,{tr with inp := tr.inp++bs},.got bs.length,wp,d⟩
  /-- The read is counted. -/
  | commitR {buf tr wp d} {n : ℕ} :
    Move opts full ⟨buf,tr,.got n,wp,d⟩ ⟨bufCommitR buf n,tr,.stored n,wp,d⟩
  /-- The read is published. -/
  | commitRf {buf tr wp d} {n : ℕ} : Move opts full ⟨buf,tr,.stored n,wp,d⟩
    ⟨bufCommitRf buf n,{tr with cin := tr.cin+n},.idle,wp,d⟩
  /-- A write decision without a grant. -/
  | canW {buf tr rp wp d} : Move opts full ⟨buf,tr,rp,wp,d⟩ ⟨(bufCanW buf).2,tr,rp,wp,d⟩
  /-- A write grant before the epilogue. -/
  | grantW {buf tr rp} (hz : (bufCanW buf).1≠0) : Move opts full ⟨buf,tr,rp,.idle,false⟩
    ⟨(bufCanW buf).2,tr,rp,.granted (bufCanW buf).1,false⟩
  /-- A write grant of the epilogue. -/
  | grantFinal {buf tr} (hz : (bufCanW buf).1≠0) : Move opts full ⟨buf,tr,.closed,.idle,true⟩
    ⟨(bufCanW buf).2,tr,.closed,.final (bufCanW buf).1,true⟩
  /-- A write grant is given up. -/
  | dropW {buf tr rp d} {siz : ℕ} : Move opts full ⟨buf,tr,rp,.granted siz,d⟩ ⟨buf,tr,rp,.idle,d⟩
  /-- A write area is given up. -/
  | abandonW {buf tr rp d} {p : Ptr} {siz pad : ℕ} (hf : full=false) :
    Move opts full ⟨buf,tr,rp,.fetched p siz pad,d⟩ ⟨buf,tr,rp,.idle,d⟩
  /-- The area of a write grant is fetched. -/
  | fetchW {buf tr rp d} {siz : ℕ} : Move opts full ⟨buf,tr,rp,.granted siz,d⟩
    ⟨(bufFetchW buf siz).2,
      {tr with reqs := tr.reqs++[loadAt (bufFetchW buf siz).2 (bufFetchW buf siz).1 siz]},
      rp,.fetched (bufFetchW buf siz).1 siz 0,d⟩
  /-- The area of a write grant of the epilogue is fetched, and padded. -/
  | fetchFinal {buf tr rp d} {siz : ℕ} : Move opts full ⟨buf,tr,rp,.final siz,d⟩
    ⟨(epiFetch opts buf siz).2.2,
      {tr with
        reqs := tr.reqs++[loadAt (epiFetch opts buf siz).2.2 (epiFetch opts buf siz).1
          (siz+(epiFetch opts buf siz).2.1)]},
      rp,.fetched (epiFetch opts buf siz).1 siz (epiFetch opts buf siz).2.1,d⟩
  /-- The write call accepts stream bytes, and padding only after all of
  them. -/
  | wrote {buf tr rp d} {p : Ptr} {siz pad k z : ℕ} (hk : k ≤ siz) (hz : z≤pad) (hl : 0<z → k=siz)
    (hf : full=true → k+z=siz+pad) :
    Move opts full ⟨buf,tr,rp,.fetched p siz pad,d⟩
      ⟨buf,{tr with out := tr.out++loadAt buf p (k+z)},rp,.wrote k z,d⟩
  /-- The write is counted. -/
  | commitW {buf tr rp d} {k z : ℕ} : Move opts full ⟨buf,tr,rp,.wrote k z,d⟩
    ⟨bufCommitW buf (k+z),tr,rp,.counted k z,d⟩
  /-- The written stream bytes are released. -/
  | commitWf {buf tr rp d} {k z : ℕ} : Move opts full ⟨buf,tr,rp,.counted k z,d⟩
    ⟨bufCommitWf buf k,{tr with cout := tr.cout+k},rp,.idle,d⟩
  /-- The writing side leaves its loop. -/
  | leave {buf tr rp wp d} : Move opts full ⟨buf,tr,rp,wp,d⟩ ⟨buf,tr,rp,wp,true⟩
  /-- The writing side is switched to draining. -/
  | setlinew {buf tr rp} : Move opts full ⟨buf,tr,rp,.idle,true⟩ ⟨bufSetlinew buf,tr,rp,.idle,true⟩
  /-- The outcome of a call is noted. -/
  | note {buf tr rp wp d} {eof rfail wfail : Bool} : Move opts full ⟨buf,tr,rp,wp,d⟩
    ⟨buf,{tr with eof := eof,rfail := rfail,wfail := wfail},rp,wp,d⟩

/-- Any number of moves. -/
abbrev Moves (opts : OptionsS) (full : Bool) : View → View → Prop :=
  Relation.ReflTransGen (Move opts full)

/-- What every move keeps, any number of moves keeps. -/
theorem Moves.invariant {I : View → Prop} (h : Moves opts full v v') (h0 : I v)
    (hstep : ∀ v v',I v → Move opts full v v' → I v') : I v' := by
  induction h with
  | refl => exact h0
  | tail _ hm ih => exact hstep _ _ ih hm

/-- The stream invariant of a view. -/
structure DataInv (opts : OptionsS) (v : View) : Prop where
  /-- Published bytes were read. -/
  cin_le : v.tr.cin≤v.tr.inp.length
  /-- The stream. -/
  stream : StreamInv opts v.buf (flow v.tr) v.rp v.wp

/-- A move takes no read grant of all the free space. -/
def Fits (v v' : View) : Prop := ∀ siz,v.rp=.idle → v'.rp=.granted siz → ¬Filling v.buf

/-- Every move that takes no such grant keeps the stream invariant. -/
theorem DataInv.fit_move (hi : DataInv opts v) (h : Move opts full v v') (hn : Fits v v') :
    DataInv opts v' := by
  obtain ⟨hcin,hst⟩ := hi
  cases h with
  | canR => exact ⟨hcin,hst.canR⟩
  | grantR hz => exact ⟨hcin,StreamInv.grantR hst (hn _ rfl rfl) hz⟩
  | dropR => exact ⟨hcin,StreamInv.dropR hst⟩
  | abandonR => exact ⟨hcin,StreamInv.abandonR hst⟩
  | close => exact ⟨hcin,StreamInv.close hst⟩
  | fetchR => exact ⟨hcin,StreamInv.fetchR hst⟩
  | stored hi => exact ⟨hcin,StreamInv.stored hst hi⟩
  | @data _ tr _ _ p siz bs hpos hle =>
    have hpend : (flow tr).pending=[] := hst.reader.1
    refine ⟨hcin.trans (by simp only [List.length_append]; omega),?_⟩
    change StreamInv opts _ (flow {tr with inp := tr.inp++bs}) _ _
    rw [flow_read tr bs hcin hpend]
    exact StreamInv.data hst hpos hle
  | commitR => exact ⟨hcin,StreamInv.commitR hst⟩
  | @commitRf _ tr _ _ n =>
    obtain ⟨hle,hf⟩ := flow_publish tr hcin hst.reader.1
    refine ⟨hle,?_⟩
    change StreamInv opts _ (flow {tr with cin := tr.cin+n}) _ _
    rw [hf]
    exact StreamInv.commitRf hst
  | canW => exact ⟨hcin,hst.canW⟩
  | grantW hz => exact ⟨hcin,StreamInv.grantW hst hz⟩
  | grantFinal hz => exact ⟨hcin,StreamInv.grantFinal hst hz⟩
  | dropW => exact ⟨hcin,StreamInv.dropW hst⟩
  | abandonW hf => exact ⟨hcin,StreamInv.abandonW hst⟩
  | fetchW => exact ⟨hcin,StreamInv.fetchW hst⟩
  | fetchFinal => exact ⟨hcin,StreamInv.epiFetch hst⟩
  | @wrote _ _ _ _ p siz pad k z hk hz hl hf =>
    have hs := StreamInv.wrote hst (by omega : k+z ≤ siz+pad)
    rw [show min siz (k+z)=k by omega,show k+z-siz=z by omega] at hs
    exact ⟨hcin,hs⟩
  | commitW => exact ⟨hcin,StreamInv.commitW hst⟩
  | commitWf => exact ⟨hcin,StreamInv.commitWf hst⟩
  | leave => exact ⟨hcin,hst⟩
  | setlinew => exact ⟨hcin,StreamInv.setlinew hst⟩
  | note => exact ⟨hcin,hst⟩

/-- The view of an accepted configuration before anything is moved. -/
def View.init (buf : BufS) : View := ⟨buf,Trace.init,.idle,.idle,false⟩

/-- A block-mode reader takes no such grant. -/
theorem DataInv.fits (hi : DataInv opts v) (hb : opts.rline=false ∨ opts.rblk=1) (v' : View) :
    Fits v v' :=
  fun _ _ _ => (hi.stream.block hb).fits

/-- Every move of a block-mode reader keeps the stream invariant. -/
theorem DataInv.move (hi : DataInv opts v) (hb : opts.rline=false ∨ opts.rblk=1)
    (h : Move opts full v v') : DataInv opts v' :=
  hi.fit_move h (hi.fits hb v')

/-- The stream invariant holds before anything is moved. -/
theorem DataInv.init (cfg : Config) : DataInv cfg.opts (.init cfg.buf) :=
  ⟨le_refl 0,.init cfg⟩

/-- The stream invariant holds after any moves of a block-mode reader. -/
theorem DataInv.moves (cfg : Config) (hb : cfg.opts.rline=false ∨ cfg.opts.rblk=1)
    (h : Moves cfg.opts full (.init cfg.buf) v) : DataInv cfg.opts v :=
  h.invariant (.init cfg) fun _ _ hi hm => hi.move hb hm

/-- The output is the input in order, followed by less than a block of zeros
in strict mode and by nothing otherwise. -/
def Delivered (opts : OptionsS) (t : Trace) : Prop :=
  ∃ z,t.out=t.inp++List.replicate z 0 ∧ (0<z → z<opts.wblk ∧ opts.strict=true)

/-- Behind a closed reading side, an idle writing side over an empty buffer has
delivered the input. -/
theorem StreamInv.delivers {buf : BufS} {t : Trace} (h : StreamInv opts buf (flow t) .closed .idle)
    (hz : fill buf=0) : Delivered opts t := by
  obtain ⟨z,ho,hp⟩ := h.delivered hz
  rw [flow_all] at ho
  exact ⟨z,ho,hp⟩

/-- The output is a prefix of the bytes published, followed by padding only
after the end of the input. -/
theorem DataInv.output (hi : DataInv opts v) :
    ∃ k z,v.tr.out=v.tr.inp.take k++List.replicate z 0 ∧ k ≤ v.tr.cin ∧
      (0<z → v.rp=.closed ∧ k=v.tr.inp.length ∧ z<opts.wblk ∧ opts.strict=true) := by
  obtain ⟨hcin,hst⟩ := hi
  have hlen := flow_sent_length v.tr hcin
  obtain ⟨k,z,ho,hk,hp⟩ := hst.output
  rw [hlen] at hk hp
  have hout : v.tr.out=(v.tr.inp.take v.tr.cin).take k++List.replicate z 0 := ho
  rw [List.take_take,Nat.min_eq_left hk] at hout
  refine ⟨k,z,hout,hk,fun hz => ?_⟩
  obtain ⟨hc,hkc,hw,hs⟩ := hp hz
  have hrd := hst.reader
  rw [hc] at hrd
  have hpend := List.drop_eq_nil_iff.mp (hrd : v.tr.inp.drop v.tr.cin=[])
  exact ⟨hc,by omega,hw,hs⟩

/-- The size of a write grant, until bytes of it are accepted. -/
def WPhase.asked : WPhase → Option ℕ
  | .granted siz => some siz
  | .final siz => some siz
  | .fetched _ siz _ => some siz
  | _ => none

/-- Write grants are not empty. -/
theorem asked_pos {buf : BufS} (h : Moves opts full (.init buf) v) :
    ∀ n,v.wp.asked=some n → 0<n := by
  refine h.invariant (I:=fun v => ∀ n,v.wp.asked=some n → 0<n) (fun n hn => by cases hn) ?_
  intro v v' hi hm n hn
  cases hm with
  | grantW hz =>
    cases hn
    exact Nat.pos_of_ne_zero hz
  | grantFinal hz =>
    cases hn
    exact Nat.pos_of_ne_zero hz
  | fetchW => exact hi n hn
  | fetchFinal => exact hi n hn
  | dropW => cases hn
  | abandonW hf => cases hn
  | wrote hk hz hl hf => cases hn
  | commitW => cases hn
  | commitWf => cases hn
  | setlinew => cases hn
  | _ => exact hi n hn

end Yancat.ByteStream
