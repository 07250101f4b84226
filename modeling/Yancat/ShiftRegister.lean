import Mathlib.Algebra.CharP.Two
import Mathlib.Algebra.Field.ZMod
import Mathlib.RingTheory.AdjoinRoot
import Mathlib.Tactic

/-!
# Shift registers and polynomials over two elements

A register of any width that shifts its top bit out, feeds one bit in and
subtracts a generator divides polynomials over the field of two elements. The
contents are the coefficients of a remainder: two registers with the same class
modulo the generator are equal, and whatever is congruent to the stream is read
off the register. A generator with a constant term divides no short polynomial
shifted by any amount, so bursts are never lost.
-/

namespace Yancat.ShiftRegister

open Polynomial

/-- The coefficient of a bit. -/
def bitCoeff (b : Bool) : ZMod 2 := if b=true then 1 else 0

/-- Exclusive or adds coefficients. -/
theorem bitCoeff_xor (a b : Bool) : bitCoeff (a ^^ b)=bitCoeff a+bitCoeff b := by
  cases a <;> cases b <;> decide

/-- Coefficients determine bits. -/
theorem bitCoeff_inj {a b : Bool} (h : bitCoeff a=bitCoeff b) : a=b := by
  revert h
  cases a <;> cases b <;> decide

variable {w : ℕ}

/-- The polynomial of a register, the lowest bit being the constant term. -/
noncomputable def regPoly (c : BitVec w) : (ZMod 2)[X] :=
  ∑ i ∈ Finset.range w,C (bitCoeff (c.getLsbD i))*X^i

/-- The coefficients of a register are its bits. -/
theorem coeff_regPoly (c : BitVec w) (i : ℕ) : (regPoly c).coeff i=bitCoeff (c.getLsbD i) := by
  rw [regPoly,finsetSum_coeff]
  simp only [coeff_C_mul,coeff_X_pow,mul_ite,mul_one,mul_zero,Finset.sum_ite_eq,Finset.mem_range]
  split
  · rfl
  · next h =>
    rw [BitVec.getLsbD_of_ge c i (Nat.not_lt.mp h)]
    rfl

/-- A register is below its width. -/
theorem degree_regPoly_lt (c : BitVec w) : (regPoly c).degree<w := by
  rw [degree_lt_iff_coeff_zero]
  intro i hi
  rw [coeff_regPoly,BitVec.getLsbD_of_ge c i hi]
  rfl

/-- Registers with equal polynomials are equal. -/
theorem regPoly_inj {a b : BitVec w} (h : regPoly a=regPoly b) : a=b := by
  apply BitVec.eq_of_getLsbD_eq
  intro i _
  apply bitCoeff_inj
  rw [←coeff_regPoly,←coeff_regPoly,h]

/-- Exclusive or adds polynomials. -/
theorem regPoly_xor (a b : BitVec w) : regPoly (a^^^b)=regPoly a+regPoly b := by
  ext i
  rw [coeff_add,coeff_regPoly,coeff_regPoly,coeff_regPoly,BitVec.getLsbD_xor,bitCoeff_xor]

/-- The empty register is the zero polynomial. -/
theorem regPoly_zero : regPoly (0 : BitVec w)=0 := by
  ext i
  rw [coeff_regPoly,coeff_zero]
  simp [bitCoeff]

/-- Widening a register keeps its polynomial. -/
theorem regPoly_setWidth {v : ℕ} (c : BitVec w) (h : w≤v) : regPoly (c.setWidth v)=regPoly c := by
  ext i
  rw [coeff_regPoly,coeff_regPoly,BitVec.getLsbD_setWidth]
  by_cases hi : i<v
  · rw [decide_eq_true hi,Bool.true_and]
  · rw [decide_eq_false hi,Bool.false_and,BitVec.getLsbD_of_ge c i (by omega)]

/-- A shift multiplies by a power of the variable, less what is shifted out. -/
theorem regPoly_shiftLeft (c : BitVec w) {k : ℕ} (hk : k≤w) :
    regPoly (c<<<k)+X^w*regPoly (c>>>(w-k))=X^k*regPoly c := by
  ext i
  rw [coeff_add,coeff_X_pow_mul',coeff_X_pow_mul',coeff_regPoly,coeff_regPoly,coeff_regPoly,
    BitVec.getLsbD_shiftLeft,BitVec.getLsbD_ushiftRight]
  by_cases hw : w ≤ i
  · have he : w-k+(i-w)=i-k := by omega
    rw [if_pos hw,if_pos (hk.trans hw),decide_eq_false (by omega : ¬i<w),he]
    simp [bitCoeff]
  · rw [if_neg hw,add_zero,decide_eq_true (by omega : i<w)]
    by_cases hi : k ≤ i
    · rw [if_pos hi,decide_eq_false (by omega : ¬i<k)]
      simp
    · rw [if_neg hi,decide_eq_true (by omega : i<k)]
      simp [bitCoeff]

/-- The generator of a register: its low terms are given, and its top term is
the power of the width. -/
noncomputable def genPoly (g : BitVec w) : (ZMod 2)[X] := X^w+regPoly g

/-- Generators are monic. -/
theorem genPoly_monic (g : BitVec w) : (genPoly g).Monic := monic_X_pow_add (degree_regPoly_lt g)

/-- The degree of a generator is the width. -/
theorem degree_genPoly (g : BitVec w) : (genPoly g).degree=w := by
  rw [genPoly,degree_add_eq_left_of_degree_lt]
  · exact degree_X_pow w
  · rw [degree_X_pow]
    exact degree_regPoly_lt g

/-- The class of a polynomial modulo the generator. -/
noncomputable abbrev residue (g : BitVec w) : (ZMod 2)[X] →+* AdjoinRoot (genPoly g) :=
  AdjoinRoot.mk (genPoly g)

/-- The class of a power of the width is that of the low terms. -/
theorem residue_top (g : BitVec w) : residue g (X^w)=residue g (regPoly g) := by
  rw [AdjoinRoot.mk_eq_mk,CharTwo.sub_eq_add]
  exact dvd_refl _

/-- Equal classes mean equal registers. -/
theorem eq_of_residue {g a b : BitVec w} (h : residue g (regPoly a)=residue g (regPoly b)) :
    a=b := by
  rw [AdjoinRoot.mk_eq_mk,CharTwo.sub_eq_add,←regPoly_xor] at h
  have hz := eq_zero_of_dvd_of_degree_lt h (by rw [degree_genPoly]; exact degree_regPoly_lt _)
  apply regPoly_inj
  rw [regPoly_xor] at hz
  exact CharTwo.add_eq_zero.mp hz

/-- A register whose class is that of a polynomial holds its remainder. -/
theorem regPoly_eq_mod {g c : BitVec w} {p : (ZMod 2)[X]}
    (h : residue g (regPoly c)=residue g p) : regPoly c=p%ₘgenPoly g := by
  have hself : regPoly c%ₘgenPoly g=regPoly c :=
    (modByMonic_eq_self_iff (genPoly_monic g)).mpr
      (by rw [degree_genPoly]; exact degree_regPoly_lt c)
  exact hself.symm.trans
    (modByMonic_eq_of_dvd_sub (genPoly_monic g) (AdjoinRoot.mk_eq_mk.mp h))

/-- Shift out the top bit, and subtract the generator when it differs from the
bit that is fed in. -/
def feed (g c : BitVec w) (b : Bool) : BitVec w :=
  if (c.msb ^^ b)=true then (c<<<1)^^^g else c<<<1

/-- Feed a stream of bits, the first bit first. -/
def feedAll (g c : BitVec w) (bits : List Bool) : BitVec w := bits.foldl (feed g) c

/-- The polynomial of a stream of bits, the first bit being the highest term. -/
noncomputable def streamPoly : List Bool → (ZMod 2)[X]
  | [] => 0
  | b::bits => C (bitCoeff b)*X^bits.length+streamPoly bits

/-- The coefficients of a stream are its bits from the last one on. -/
theorem coeff_streamPoly (bits : List Bool) (i : ℕ) :
    (streamPoly bits).coeff i=bitCoeff (bits.reverse.getD i false) := by
  induction bits with
  | nil => rfl
  | cons b bits ih =>
    have hlen : bits.reverse.length=bits.length := List.length_reverse
    rw [streamPoly,coeff_add,coeff_C_mul,coeff_X_pow,ih,List.reverse_cons,
      List.getD_eq_getElem?_getD,List.getD_eq_getElem?_getD]
    rcases Nat.lt_trichotomy i bits.length with hi|hi|hi
    · rw [if_neg hi.ne,mul_zero,zero_add,List.getElem?_append_left (by omega)]
    · rw [if_pos hi,mul_one,List.getElem?_append_right (by omega),
        List.getElem?_eq_none (by omega),hi,hlen,Nat.sub_self]
      exact add_zero _
    · rw [if_neg hi.ne',mul_zero,zero_add,List.getElem?_eq_none (by omega),
        List.getElem?_eq_none (by rw [List.length_append,hlen]; simp; omega)]

/-- Streams of equal length with equal polynomials are equal. -/
theorem streamPoly_inj {xs ys : List Bool} (hlen : xs.length=ys.length)
    (h : streamPoly xs=streamPoly ys) : xs=ys := by
  apply List.reverse_injective
  apply List.ext_getElem (by rw [List.length_reverse,List.length_reverse,hlen])
  intro i hx hy
  have hi := congrArg (fun p => p.coeff i) h
  simp only [coeff_streamPoly,List.getD_eq_getElem?_getD,List.getElem?_eq_getElem hx,
    List.getElem?_eq_getElem hy,Option.getD_some] at hi
  exact bitCoeff_inj hi

/-- One step of the register multiplies its class by the variable and adds the
bit at the width. -/
theorem residue_feed (g c : BitVec w) (b : Bool) (hw : 0<w) :
    residue g (regPoly (feed g c b))=
      residue g (X*regPoly c+C (bitCoeff b)*X^w) := by
  have htop : regPoly (c>>>(w-1))=C (bitCoeff c.msb) := by
    ext i
    rw [coeff_regPoly,BitVec.getLsbD_ushiftRight,coeff_C,BitVec.msb_eq_getLsbD_last]
    cases i with
    | zero => rfl
    | succ i => rw [BitVec.getLsbD_of_ge _ _ (by omega),if_neg (Nat.succ_ne_zero i)]; rfl
  have hshift := regPoly_shiftLeft c (k:=1) hw
  rw [htop,pow_one] at hshift
  have hone : regPoly (c<<<1)=X*regPoly c+C (bitCoeff c.msb)*X^w := by
    rw [←hshift,mul_comm (X^w),add_assoc,CharTwo.add_self_eq_zero,add_zero]
  have hsum : regPoly (feed g c b)=
      X*regPoly c+C (bitCoeff c.msb)*X^w+C (bitCoeff (c.msb ^^ b))*regPoly g := by
    rw [feed]
    split
    · next h =>
      have hb : bitCoeff true=1 := rfl
      rw [regPoly_xor,hone,h,hb,C_1,one_mul]
    · next h =>
      have hb : bitCoeff false=0 := rfl
      rw [hone,Bool.eq_false_of_not_eq_true h,hb,C_0,zero_mul,add_zero]
  rw [hsum,bitCoeff_xor,C_add]
  simp only [map_add,map_mul,←residue_top]
  have htwo := congrArg (residue g) (CharTwo.add_self_eq_zero (C (bitCoeff c.msb)*X^w))
  rw [map_add,map_mul,map_zero] at htwo
  linear_combination htwo

/-- A fed stream is added at the width, and shifts what was there before. -/
theorem residue_feedAll (g c : BitVec w) (bits : List Bool) (hw : 0<w) :
    residue g (regPoly (feedAll g c bits))=
      residue g (regPoly c*X^bits.length+streamPoly bits*X^w) := by
  induction bits generalizing c with
  | nil => rw [List.length_nil,pow_zero,mul_one,streamPoly,zero_mul,add_zero]; rfl
  | cons b bits ih =>
    have hfeed := residue_feed g c b hw
    rw [feedAll,List.foldl_cons]
    change residue g (regPoly (feedAll g (feed g c b) bits))=_
    rw [ih,streamPoly,List.length_cons]
    simp only [map_add,map_mul,map_pow] at hfeed ⊢
    rw [hfeed]
    ring

/-- A generator with a constant term is prime to every power of the variable. -/
theorem genPoly_coprime {g : BitVec w} (hg : g.getLsbD 0=true) (hw : 0<w) (k : ℕ) :
    IsCoprime (genPoly g) (X^k) := by
  apply IsCoprime.pow_right
  have hcoeff : (genPoly g).coeff 0=1 := by
    rw [genPoly,coeff_add,coeff_X_pow,coeff_regPoly,hg,if_neg hw.ne]
    rfl
  have hdiv := divX_mul_X_add (genPoly g)
  rw [hcoeff,C_1] at hdiv
  exact ⟨1,-(genPoly g).divX,by linear_combination -hdiv⟩

/-- No generator with a constant term divides a nonzero polynomial whose terms
lie within a window of its width. -/
theorem not_dvd_burst {g : BitVec w} (hg : g.getLsbD 0=true) (hw : 0<w) {p : (ZMod 2)[X]}
    (hp : p≠0) {e : ℕ} (hlow : ∀ i<e,p.coeff i=0) (hhigh : ∀ i≥e+w,p.coeff i=0) (k : ℕ) :
    ¬genPoly g∣p*X^k := by
  intro hdvd
  obtain ⟨d,rfl⟩ := X_pow_dvd_iff.mpr hlow
  have hd := (genPoly_coprime hg hw (e+k)).dvd_of_dvd_mul_left
    (by rw [pow_add]; convert hdvd using 1; ring : genPoly g∣X^(e+k)*d)
  have hdeg : d.degree<w := by
    rw [degree_lt_iff_coeff_zero]
    intro i hi
    have hi' := hhigh (e+i) (by omega)
    rw [coeff_X_pow_mul',if_pos (Nat.le_add_right e i),Nat.add_sub_cancel_left] at hi'
    exact hi'
  have hz := eq_zero_of_dvd_of_degree_lt hd (by rw [degree_genPoly]; exact hdeg)
  exact hp (by rw [hz,mul_zero])

/-- Streams of equal length that differ within a window of the width, and only
there, leave different registers. -/
theorem feedAll_burst {g : BitVec w} (hg : g.getLsbD 0=true) (hw : 0<w) (c : BitVec w)
    {xs ys : List Bool} (hlen : xs.length=ys.length) (hne : xs≠ys) {s : ℕ}
    (hwin : ∀ i,xs[i]?≠ys[i]? → s ≤ i ∧ i<s+w) : feedAll g c xs≠feedAll g c ys := by
  intro heq
  have hres := congrArg (fun c => residue g (regPoly c)) heq
  simp only [residue_feedAll g c _ hw,hlen] at hres
  rw [AdjoinRoot.mk_eq_mk,CharTwo.sub_eq_add] at hres
  have hdvd : genPoly g∣(streamPoly xs+streamPoly ys)*X^w := by
    have hsplit : (streamPoly xs+streamPoly ys)*X^w=
        regPoly c*X^ys.length+streamPoly xs*X^w+(regPoly c*X^ys.length+streamPoly ys*X^w) := by
      have htwo := CharTwo.add_self_eq_zero (regPoly c*X^ys.length)
      linear_combination -htwo
    rwa [hsplit]
  -- the coefficient of the difference at a position is that of the two bits there
  have hsame : ∀ i,(∀ j,i+j+1=ys.length → xs[j]?=ys[j]?) →
      (streamPoly xs+streamPoly ys).coeff i=0 := by
    intro i hi
    rw [coeff_add,coeff_streamPoly,coeff_streamPoly,CharTwo.add_eq_zero,List.getD_eq_getElem?_getD,
      List.getD_eq_getElem?_getD]
    by_cases hlt : i<ys.length
    · rw [List.getElem?_reverse (by omega),List.getElem?_reverse hlt,hlen,
        hi (ys.length-1-i) (by omega)]
    · rw [List.getElem?_eq_none (by simp; omega),List.getElem?_eq_none (by simp; omega)]
  have hwin' : ∀ i,¬(s ≤ i ∧ i<s+w) → xs[i]?=ys[i]? := fun i hi => by
    by_contra hd
    exact hi (hwin i hd)
  refine not_dvd_burst hg hw ?_ (e:=ys.length-(s+w)) ?_ ?_ w hdvd
  · intro hz
    exact hne (streamPoly_inj hlen (CharTwo.add_eq_zero.mp hz))
  · intro i hi
    exact hsame i fun j hj => hwin' j (by omega)
  · intro i hi
    exact hsame i fun j hj => hwin' j (by omega)

end Yancat.ShiftRegister
