import Yancat.Crc
import Yancat.ShiftRegister

/-!
# The reported checksums

The table-driven register is the bit-at-a-time register of its generator, for
every state and every byte sequence. What is reported as `cksum` is therefore
the complement of a polynomial remainder over the stream and the octets of its
length, and a burst no longer than the register changes both reported numbers.
-/

namespace Yancat.Crc

open Polynomial ShiftRegister

/-- The bits of a byte, the most significant first. -/
def byteBits (d : Byte) : List Bool := (List.range 8).map d.getMsbD

/-- The bits of a byte sequence. -/
def streamBits (d : List Byte) : List Bool := d.flatMap byteBits

/-- The octets of a length, least significant first and without leading zeros. -/
def lengthOctets (n : ℕ) : List Byte := (Nat.digits 256 n).map (BitVec.ofNat 8)

/-- The generator with its leading term. -/
noncomputable def posixPoly : (ZMod 2)[X] := regPoly (0x104C11DB7 : BitVec 33)

/-- The checksum of a byte sequence: the complement of the remainder of the
message and its length, shifted by the width. -/
def IsCksum (d : List Byte) (c : CrcInt) : Prop :=
  regPoly (~~~c)=(streamPoly (streamBits (d++lengthOctets d.length))*X^32)%ₘposixPoly

/-- The loop of `crc_cksum` that fills the scratch array. A ninth octet would be
stored outside the array. -/
def cksumScratch : ℕ → List Byte → BitVec 64 → Option (List Byte)
  | 0,_,_ => none
  | n+1,s,b =>
    if b=0 then some s
    else if s.length<8 then cksumScratch n (s++[(b&&&0xFF).setWidth 8]) (b>>>8)
    else none

/-- The generator with its leading term is the generator of the register. -/
theorem genPoly_poly : genPoly poly=posixPoly := by
  ext i
  rw [genPoly,posixPoly,coeff_add,coeff_X_pow,coeff_regPoly,coeff_regPoly]
  by_cases hi : i<33
  · revert i
    decide
  · rw [if_neg (by omega),BitVec.getLsbD_of_ge _ _ (by omega),BitVec.getLsbD_of_ge _ _ (by omega)]
    rfl

/-- A byte has eight bits. -/
theorem byteBits_length (d : Byte) : (byteBits d).length=8 := rfl

/-- The stream of a byte has the polynomial of the byte. -/
theorem streamPoly_byteBits (d : Byte) : streamPoly (byteBits d)=regPoly d := by
  ext i
  rw [coeff_streamPoly,coeff_regPoly]
  congr 1
  by_cases hi : i<8
  · interval_cases i <;> rfl
  · rw [List.getD_eq_getElem?_getD,List.getElem?_eq_none,BitVec.getLsbD_of_ge _ _ (by omega)]
    · rfl
    · rw [List.length_reverse,byteBits_length]
      omega

/-- A division step feeds a zero. -/
theorem crcShift_eq (c : CrcInt) : crcShift c=feed poly c false := by
  rw [crcShift,feed,Bool.xor_false]

/-- A table row shifts its class. -/
theorem residue_crcRow (c : CrcInt) (n : ℕ) :
    residue poly (regPoly (crcRow c n))=residue poly (X^n*regPoly c) := by
  induction n generalizing c with
  | zero => rw [crcRow,pow_zero,one_mul]
  | succ n ih =>
    have hfeed := residue_feed poly c false (by decide)
    have hzero : bitCoeff false=0 := rfl
    rw [hzero,C_0,zero_mul,add_zero] at hfeed
    rw [crcRow,ih,crcShift_eq,map_mul,hfeed,←map_mul]
    refine congrArg (residue poly) ?_
    ring

/-- The table entry of an index. -/
theorem ctab_getD (i : BitVec 32) (h : i.toNat<256) : ctab.getD i.toNat 0=crcRow (i<<<24) 8 := by
  rw [ctab,List.getD_eq_getElem?_getD,List.getElem?_map,List.getElem?_range h,Option.map_some,
    Option.getD_some,BitVec.ofNat_toNat,BitVec.setWidth_eq]

/-- The top byte of the register and a byte of data fit an index. -/
theorem index_lt (c : CrcInt) (d : Byte) : ((c>>>24)^^^d.setWidth 32).toNat<256 := by
  have hc : (c>>>24).toNat<2^8 := by
    rw [BitVec.toNat_ushiftRight,Nat.shiftRight_eq_div_pow]
    have := c.isLt
    omega
  have hd : (d.setWidth 32).toNat<2^8 := by
    rw [BitVec.toNat_setWidth]
    exact (Nat.mod_le _ _).trans_lt d.isLt
  rw [BitVec.toNat_xor]
  exact Nat.xor_lt_two_pow hc hd

/-- The mask of the table index changes nothing. -/
theorem index_mask (c : CrcInt) (d : Byte) :
    ((c>>>24)^^^d.setWidth 32)&&&(0xFF : CrcInt)=(c>>>24)^^^d.setWidth 32 := by
  apply BitVec.eq_of_toNat_eq
  have h := index_lt c d
  have hmask : (0xFF : CrcInt).toNat=2^8-1 := rfl
  rw [BitVec.toNat_and,hmask]
  rw [Nat.and_two_pow_sub_one_eq_mod,Nat.mod_eq_of_lt h]

/-- One byte of `crc_calc` adds the byte at the width and shifts the register. -/
theorem residue_crcByte (c : CrcInt) (d : Byte) :
    residue poly (regPoly (crcByte c d))=residue poly (regPoly c*X^8+regPoly d*X^32) := by
  let i := (c>>>24)^^^d.setWidth 32
  have hlt : i.toNat<256 := index_lt c d
  have hi : regPoly i=regPoly (c>>>24)+regPoly d := by
    rw [regPoly_xor,regPoly_setWidth d (by decide)]
  have hout : i>>>(32-24)=0 := by
    apply BitVec.eq_of_toNat_eq
    rw [BitVec.toNat_ushiftRight,Nat.shiftRight_eq_div_pow,Nat.div_eq_of_lt hlt]
    rfl
  have hindex := regPoly_shiftLeft i (k:=24) (by decide)
  rw [hout,regPoly_zero,mul_zero,add_zero,hi] at hindex
  have hshift := regPoly_shiftLeft c (k:=8) (by decide)
  have hbyte : crcByte c d=(c<<<8)^^^crcRow (i<<<24) 8 := by
    rw [crcByte,index_mask,ctab_getD i hlt]
  rw [hbyte,regPoly_xor,map_add,residue_crcRow,hindex,←map_add]
  refine congrArg (residue poly) ?_
  linear_combination hshift

/-- One byte of `crc_calc` feeds its eight bits. -/
theorem crcByte_eq (c : CrcInt) (d : Byte) : crcByte c d=feedAll poly c (byteBits d) := by
  apply eq_of_residue (g:=poly)
  rw [residue_crcByte,residue_feedAll poly c _ (by decide),byteBits_length,streamPoly_byteBits]

/-- `crc_calc` is the bit-at-a-time register. -/
theorem crcCalc_eq (c : CrcInt) (d : List Byte) : crcCalc c d=feedAll poly c (streamBits d) := by
  induction d generalizing c with
  | nil => rfl
  | cons b d ih =>
    rw [streamBits,List.flatMap_cons,feedAll,List.foldl_append]
    change crcCalc (crcByte c b) d=feedAll poly (feedAll poly c (byteBits b)) (streamBits d)
    rw [ih,crcByte_eq]

/-- The final operation is the complement. -/
theorem crcEnd_eq (c : CrcInt) : crcEnd c=(~~~c) := by
  rw [crcEnd,BitVec.xor_allOnes,BitVec.and_allOnes]

/-- The register of a stream from the start holds the remainder of the stream
shifted by the width. -/
theorem regPoly_crcCalc (d : List Byte) :
    regPoly (crcCalc crcBeg d)=(streamPoly (streamBits d)*X^32)%ₘposixPoly := by
  have hzero : regPoly crcBeg=0 := regPoly_zero
  rw [crcCalc_eq,←genPoly_poly]
  apply regPoly_eq_mod
  rw [residue_feedAll poly crcBeg _ (by decide),hzero,zero_mul,zero_add]

/-- The octets of a word are the digits of the number in it. -/
theorem cksumOctets_eq {k n : ℕ} (hn : n<2^64) (hk : n<256^k) :
    cksumOctets k (BitVec.ofNat 64 n)=lengthOctets n := by
  induction k generalizing n with
  | zero =>
    obtain rfl : n=0 := by omega
    rfl
  | succ k ih =>
    rw [cksumOctets]
    by_cases hz : n=0
    · rw [if_pos (by rw [hz]; rfl),hz]
      rfl
    · have hne : BitVec.ofNat 64 n≠0 := by
        intro he
        have ht := congrArg BitVec.toNat he
        rw [BitVec.toNat_ofNat,Nat.mod_eq_of_lt hn] at ht
        exact hz ht
      have hlow : (BitVec.ofNat 64 n&&&0xFF).setWidth 8=BitVec.ofNat 8 (n%256) := by
        apply BitVec.eq_of_toNat_eq
        have hmask : (0xFF : BitVec 64).toNat=2^8-1 := rfl
        rw [BitVec.toNat_setWidth,BitVec.toNat_and,BitVec.toNat_ofNat,BitVec.toNat_ofNat,hmask,
          Nat.and_two_pow_sub_one_eq_mod,Nat.mod_eq_of_lt hn]
      have hhigh : BitVec.ofNat 64 n>>>8=BitVec.ofNat 64 (n/256) := by
        apply BitVec.eq_of_toNat_eq
        rw [BitVec.toNat_ushiftRight,BitVec.toNat_ofNat,BitVec.toNat_ofNat,Nat.mod_eq_of_lt hn,
          Nat.shiftRight_eq_div_pow,Nat.mod_eq_of_lt (by omega)]
      have hdigits : Nat.digits 256 n=n%256::Nat.digits 256 (n/256) :=
        Nat.digits_def' (by decide) (by omega)
      rw [if_neg hne,hlow,hhigh,ih (by omega) (by rw [pow_succ] at hk; omega),lengthOctets,
        lengthOctets,hdigits,List.map_cons]

/-- Every round leaves one octet. -/
theorem cksumOctets_length (k : ℕ) (b : BitVec 64) : (cksumOctets k b).length≤k := by
  induction k generalizing b with
  | zero => exact le_refl 0
  | succ k ih =>
    rw [cksumOctets]
    split
    · exact Nat.zero_le _
    · exact Nat.succ_le_succ (ih _)

/-- The loop stays inside the scratch array and ends with the octets in it. -/
theorem cksumScratch_some {k : ℕ} {s : List Byte} {b : BitVec 64} (hk : s.length+k=8)
    (hb : b.toNat<256^k) : cksumScratch (k+1) s b=some (s++cksumOctets k b) := by
  induction k generalizing s b with
  | zero =>
    have hz : b=0 := BitVec.eq_of_toNat_eq (by rw [pow_zero] at hb; simp; omega)
    rw [cksumScratch,if_pos hz,cksumOctets,List.append_nil]
  | succ k ih =>
    rw [cksumScratch,cksumOctets]
    by_cases hz : b=0
    · rw [if_pos hz,if_pos hz,List.append_nil]
    · rw [if_neg hz,if_neg hz,if_pos (by omega),ih,List.append_assoc]
      · rfl
      · rw [List.length_append,List.length_singleton]
        omega
      · rw [BitVec.toNat_ushiftRight,Nat.shiftRight_eq_div_pow]
        rw [pow_succ] at hb
        omega

/-- Eight bits a byte. -/
theorem streamBits_length (d : List Byte) : (streamBits d).length=8*d.length := by
  induction d with
  | nil => rfl
  | cons b d ih =>
    rw [streamBits,List.flatMap_cons,List.length_append,byteBits_length,List.length_cons,
      Nat.mul_succ]
    change 8+(streamBits d).length=_
    omega

/-- Different byte sequences have different bits. -/
theorem streamBits_inj {xs ys : List Byte} (h : streamBits xs=streamBits ys) : xs=ys := by
  induction xs generalizing ys with
  | nil =>
    cases ys with
    | nil => rfl
    | cons y ys =>
      have hl := congrArg List.length h
      rw [streamBits_length,streamBits_length,List.length_nil,List.length_cons] at hl
      omega
  | cons x xs ih =>
    cases ys with
    | nil =>
      have hl := congrArg List.length h
      rw [streamBits_length,streamBits_length,List.length_nil,List.length_cons] at hl
      omega
    | cons y ys =>
      rw [streamBits,streamBits,List.flatMap_cons,List.flatMap_cons] at h
      obtain ⟨hb,ht⟩ := List.append_inj h rfl
      have hxy : x=y := by
        apply regPoly_inj
        rw [←streamPoly_byteBits,←streamPoly_byteBits,hb]
      rw [hxy,ih ht]

/-- The register of two sequences with a common end that differ in a burst no
longer than it. -/
theorem crcCalc_burst (c : CrcInt) {xs ys : List Byte} (zs : List Byte)
    (hlen : xs.length=ys.length) (hne : xs≠ys) {s : ℕ}
    (hwin : ∀ i,(streamBits xs)[i]?≠(streamBits ys)[i]? → s ≤ i ∧ i<s+32) :
    crcCalc c (xs++zs)≠crcCalc c (ys++zs) := by
  have happ : ∀ ds : List Byte,streamBits (ds++zs)=streamBits ds++streamBits zs := fun ds =>
    List.flatMap_append
  have hlen' : (streamBits xs).length=(streamBits ys).length := by
    rw [streamBits_length,streamBits_length,hlen]
  rw [crcCalc_eq,crcCalc_eq,happ,happ]
  refine feedAll_burst (s:=s) (by decide) (by decide) c (by simp [hlen']) ?_ fun i hi => ?_
  · exact fun he => hne (streamBits_inj (List.append_cancel_right he))
  · refine hwin i fun he => hi ?_
    rcases Nat.lt_or_ge i (streamBits xs).length with hlt|hge
    · rw [List.getElem?_append_left hlt,List.getElem?_append_left (hlen' ▸ hlt),he]
    · rw [List.getElem?_append_right hge,List.getElem?_append_right (hlen' ▸ hge),hlen']

/-- The reported cksum is that of the stream, the register is the bit-at-a-time
one from any state, and the octets of any count fit the scratch array. -/
theorem cksum_compatible :
    (∀ d : List Byte,d.length<2^64 →
      IsCksum d (crcEnd (crcCksum (crcCalc crcBeg d) (BitVec.ofNat 64 d.length)))) ∧
    (∀ (c : CrcInt) (d : List Byte),crcCalc c d=feedAll poly c (streamBits d)) ∧
    (∀ b : BitVec 64,cksumScratch 9 [] b=some (cksumOctets 8 b) ∧ (cksumOctets 8 b).length≤8) := by
  refine ⟨fun d hd => ?_,crcCalc_eq,fun b => ?_⟩
  · have hc := crcEnd_eq (crcCksum (crcCalc crcBeg d) (BitVec.ofNat 64 d.length))
    rw [IsCksum,hc,BitVec.not_not,crcCksum,cksumOctets_eq hd (by omega),←crcCalc_append,
      regPoly_crcCalc]
  · have hb : b.toNat<256^8 := b.isLt
    exact ⟨cksumScratch_some rfl hb,cksumOctets_length 8 b⟩

/-- The numbers reported for the nine digits. -/
example : repCrc (crcCalc crcBeg [49,50,51,52,53,54,55,56,57]) 9=(0x765E7680,0x377A6011) := by
  decide +kernel

/-- Corruption that is confined to a burst of at most 32 bits changes both
reported numbers. -/
theorem burst_detected {xs ys : List Byte} (hlen : xs.length=ys.length) (hne : xs≠ys) {s : ℕ}
    (hwin : ∀ i,(streamBits xs)[i]?≠(streamBits ys)[i]? → s ≤ i ∧ i<s+32) :
    crcEnd (crcCalc crcBeg xs)≠crcEnd (crcCalc crcBeg ys) ∧
    crcEnd (crcCksum (crcCalc crcBeg xs) (BitVec.ofNat 64 xs.length))≠
      crcEnd (crcCksum (crcCalc crcBeg ys) (BitVec.ofNat 64 ys.length)) := by
  have hend : ∀ a b : CrcInt,a≠b → crcEnd a≠crcEnd b := fun a b h he => by
    rw [crcEnd_eq,crcEnd_eq] at he
    exact h (BitVec.not_inj.mp he)
  constructor
  · have hcrc := crcCalc_burst crcBeg [] hlen hne hwin
    rw [List.append_nil,List.append_nil] at hcrc
    exact hend _ _ hcrc
  · have hcks := crcCalc_burst crcBeg (cksumOctets 8 (BitVec.ofNat 64 xs.length)) hlen hne hwin
    rw [crcCalc_append,crcCalc_append] at hcks
    rw [←hlen]
    exact hend _ _ hcks

/-- A burst over the end of a byte is such a corruption. -/
theorem burst_detected_pair :
    crcEnd (crcCalc crcBeg [1,2])≠crcEnd (crcCalc crcBeg [2,0]) ∧
    crcEnd (crcCksum (crcCalc crcBeg [1,2]) (BitVec.ofNat 64 2))≠
      crcEnd (crcCksum (crcCalc crcBeg [2,0]) (BitVec.ofNat 64 2)) :=
  burst_detected (s:=0) (rfl : [1,2].length=[2,0].length) (by decide) fun i hi => by
    refine ⟨Nat.zero_le i,?_⟩
    by_contra hlt
    have hend : ∀ d : List Byte,d.length=2 → (streamBits d)[i]?=none := fun d hd => by
      rw [List.getElem?_eq_none]
      rw [streamBits_length,hd]
      omega
    exact hi (by rw [hend [1,2] rfl,hend [2,0] rfl])

end Yancat.Crc
