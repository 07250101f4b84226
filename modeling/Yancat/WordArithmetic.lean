import Mathlib.Data.Nat.Bitwise
import Mathlib.Tactic

/-!
# Unsigned machine words and power-of-two masks

Words are naturals below `2^64` and every operation states its reduction. A
mask of low bits is a remainder, so the masked difference of two ring indices
is the cyclic distance between them. The laws at the end are the arithmetic
of one bounded ring: moving either index by an amount that fits changes the
distance by exactly that amount.
-/

namespace Yancat.WordArithmetic

/-- The modulus of a 64-bit word. -/
abbrev wordSize : ℕ := 2^64

/-- The modulus as a literal, for linear arithmetic. -/
theorem wordSize_eq : wordSize=18446744073709551616 := rfl

/-- Unsigned addition with wrap-around. -/
def wordAdd (a b : ℕ) : ℕ := (a+b)%wordSize

/-- Unsigned subtraction with wrap-around. -/
def wordSub (a b : ℕ) : ℕ := (a+(wordSize-b%wordSize))%wordSize

/-- Bitwise complement of a word. -/
def wordNot (a : ℕ) : ℕ := wordSize-1-a%wordSize

/-- An addition that fits does not wrap. -/
theorem wordAdd_of_lt {a b : ℕ} (h : a+b<wordSize) : wordAdd a b=a+b := Nat.mod_eq_of_lt h

/-- A subtraction of a smaller word does not wrap. -/
theorem wordSub_of_le {a b : ℕ} (h : b≤a) (ha : a<wordSize) : wordSub a b=a-b := by
  unfold wordSub
  rw [Nat.mod_eq_of_lt (by omega : b<wordSize)]
  have he : a+(wordSize-b)=a-b+wordSize := by omega
  rw [he,Nat.add_mod_right,Nat.mod_eq_of_lt (by omega)]

/-- The masked and the unmasked bits of a word add up to the word. -/
theorem and_add_andNot {a m : ℕ} (ha : a<wordSize) (hm : m<wordSize) :
    (a&&&m)+(a&&&wordNot m)=a := by
  let x := BitVec.ofNat 64 a
  let y := BitVec.ofNat 64 m
  have hx : x.toNat=a := by rw [BitVec.toNat_ofNat,Nat.mod_eq_of_lt ha]
  have hy : y.toNat=m := by rw [BitVec.toNat_ofNat,Nat.mod_eq_of_lt hm]
  have hn : (~~~y).toNat=wordNot m := by
    rw [BitVec.toNat_not,hy,wordNot,Nat.mod_eq_of_lt hm]
  have hz : (x&&&y)&&&(x&&&~~~y)=0#64 := by
    ext i hi
    simp only [BitVec.getElem_and,BitVec.getElem_not,BitVec.getElem_zero]
    cases x[i] <;> cases y[i] <;> rfl
  have ho : (x&&&y)|||(x&&&~~~y)=x := by
    ext i hi
    simp only [BitVec.getElem_or,BitVec.getElem_and,BitVec.getElem_not]
    cases x[i] <;> cases y[i] <;> rfl
  have hs := BitVec.toNat_add_of_and_eq_zero hz
  rw [BitVec.add_eq_or_of_and_eq_zero _ _ hz,ho,BitVec.toNat_and,BitVec.toNat_and,hn,hx,hy] at hs
  exact hs.symm

/-- The cyclic distance from `back` to `front` in a ring of `size` cells. -/
def ringDist (size front back : ℕ) : ℕ := (front+(size-back))%size

/-- The masked difference of two ring indices is their cyclic distance. -/
theorem wordSub_mask {k back : ℕ} (hk : k≤64) (front : ℕ) (hb : back<2^k) :
    wordSub front back &&& (2^k-1)=ringDist (2^k) front back := by
  rw [Nat.and_two_pow_sub_one_eq_mod]
  unfold wordSub ringDist
  have hle : 2^k≤wordSize := Nat.pow_le_pow_right (by omega) hk
  rw [Nat.mod_eq_of_lt (by omega : back<wordSize),
    Nat.mod_mod_of_dvd _ (Nat.pow_dvd_pow 2 hk)]
  obtain ⟨c,hc⟩ := Nat.pow_dvd_pow 2 hk
  have hpos : 0<2^k := Nat.two_pow_pos k
  obtain ⟨d,rfl⟩ : ∃ d,c=d+1 := ⟨c-1,by
    rcases c with _|c
    · simp only [Nat.mul_zero] at hc
      omega
    · rfl⟩
  rw [Nat.mul_add,Nat.mul_one] at hc
  have he : front+(wordSize-back)=front+(2^k-back)+2^k*d := by
    change front+(2^64-back)=_
    omega
  rw [he,Nat.add_mul_mod_self_left]

/-- A masked sum is a cyclic advance. -/
theorem wordAdd_mask {k a b : ℕ} (hk : k≤64) : wordAdd a b &&& (2^k-1)=(a+b)%2^k := by
  rw [Nat.and_two_pow_sub_one_eq_mod]
  exact Nat.mod_mod_of_dvd _ (Nat.pow_dvd_pow 2 hk)

variable {size front back n : ℕ}

/-- Cyclic distances are below the ring size. -/
theorem ringDist_lt (hs : 0<size) (front back : ℕ) : ringDist size front back<size :=
  Nat.mod_lt _ hs

/-- The distance from an index to itself is zero. -/
theorem ringDist_self (hb : back<size) : ringDist size back back=0 := by
  unfold ringDist
  rw [Nat.add_sub_cancel' hb.le,Nat.mod_self]

/-- The front index is the back index advanced by the distance. -/
theorem ringDist_front (hf : front<size) (hb : back<size) :
    (back+ringDist size front back)%size=front := by
  unfold ringDist
  rw [Nat.add_mod_mod,show back+(front+(size-back))=front+size by omega,Nat.add_mod_right,
    Nat.mod_eq_of_lt hf]

/-- An index at a known advance of the back index is at that distance. -/
theorem ringDist_eq {d : ℕ} (hb : back<size) (hd : d<size)
    (h : (back+d)%size=front) : ringDist size front back=d := by
  subst h
  unfold ringDist
  rw [Nat.mod_add_mod,show back+d+(size-back)=d+size by omega,Nat.add_mod_right,
    Nat.mod_eq_of_lt hd]

/-- Indices at distance zero are equal. -/
theorem ringDist_zero (hf : front<size) (hb : back<size)
    (h : ringDist size front back=0) : front=back := by
  have hr := ringDist_front hf hb
  rw [h,Nat.add_zero,Nat.mod_eq_of_lt hb] at hr
  exact hr.symm

/-- Advancing the front index by an amount that fits adds it to the distance. -/
theorem ringDist_advance_front (hf : front<size) (hb : back<size)
    (hn : ringDist size front back+n<size) :
    ringDist size ((front+n)%size) back=ringDist size front back+n := by
  apply ringDist_eq hb hn
  rw [←Nat.add_assoc,←Nat.mod_add_mod,ringDist_front hf hb]

/-- Advancing the back index by at most the distance subtracts it. -/
theorem ringDist_advance_back (hf : front<size) (hb : back<size)
    (hn : n≤ringDist size front back) :
    ringDist size front ((back+n)%size)=ringDist size front back-n := by
  have hs : 0<size := by omega
  have hd := ringDist_lt hs front back
  apply ringDist_eq (Nat.mod_lt _ hs) (by omega)
  rw [Nat.mod_add_mod,Nat.add_assoc,Nat.add_sub_cancel' hn,ringDist_front hf hb]

/-- The distances in the two directions add up to the ring, except for
equal indices. -/
theorem ringDist_swap (hf : front<size) (hb : back<size) :
    ringDist size back front=
      if ringDist size front back=0 then 0 else size-ringDist size front back := by
  split
  · next h =>
    rw [ringDist_zero hf hb h,ringDist_self hb]
  · next h =>
    have hd := ringDist_lt (by omega : 0<size) front back
    apply ringDist_eq hf (by omega)
    generalize hg : size-ringDist size front back=rest
    rw [←ringDist_front hf hb,Nat.mod_add_mod,Nat.add_assoc,
      show ringDist size front back+rest=size by omega,Nat.add_mod_right,Nat.mod_eq_of_lt hb]

end Yancat.WordArithmetic
