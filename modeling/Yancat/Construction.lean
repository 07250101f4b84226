import Yancat.Setup

/-!
# What construction establishes

The two constructor calls over the whole range of admitted sizes: any page, any
huge page whether it is a power of two or not, any resume points. When both calls
accept, every sum and difference they formed is the exact one, and the geometry
that all later operations rest on holds. The bit loop answers with the exponent
on powers of two and with a negative number on everything else.
-/

namespace Yancat.Construction

open Crc RingWindow WordArithmetic Buffer Setup

/-- A probe of the bit loop meets the bit of a power of two at its exponent only. -/
theorem and_two_pow_pos (k pos : ℕ) : 0<2^k&&&2^pos ↔ k=pos := by
  rw [Nat.and_two_pow,Nat.testBit_two_pow]
  by_cases h : k=pos
  · rw [decide_eq_true h,Bool.toNat_true,Nat.one_mul]
    exact ⟨fun _ => h,fun _ => Nat.two_pow_pos pos⟩
  · rw [decide_eq_false h,Bool.toNat_false,Nat.zero_mul]
    exact ⟨fun hn => absurd hn (Nat.lt_irrefl 0),fun hk => absurd hk h⟩

/-- Over a power of two the bit loop counts one bit, when it passes the exponent. -/
theorem isPow2Loop_two_pow (k n pos cnt posr : ℕ) :
    isPow2Loop (2^k) n pos cnt posr=if pos≤k ∧ k<pos+n then (cnt+1,k) else (cnt,posr) := by
  induction n generalizing pos cnt posr with
  | zero =>
    rw [if_neg (by omega : ¬(pos≤k ∧ k<pos+0))]
    rfl
  | succ n ih =>
    rw [isPow2Loop,ih,ih]
    by_cases hk : k=pos
    · -- the bit is met here, and what remains starts above it
      rw [if_pos ((and_two_pow_pos k pos).mpr hk),if_neg (by omega : ¬(pos+1≤k ∧ k<pos+1+n)),
        if_pos (by omega : pos≤k ∧ k<pos+(n+1)),hk]
    · rw [if_neg (mt (and_two_pow_pos k pos).mp hk)]
      have he : (pos+1≤k ∧ k<pos+1+n) ↔ (pos≤k ∧ k<pos+(n+1)) := by omega
      exact if_congr he rfl rfl

/-- The answer for a power of two is its exponent. -/
theorem isPow2_two_pow {k : ℕ} (hk : k<64) : isPow2 (2^k)=k := by
  unfold isPow2
  rw [isPow2Loop_two_pow,if_pos (by omega : 0≤k ∧ k<0+64)]
  rfl

/-- The answer is nonnegative exactly for the powers of two. -/
theorem isPow2_nonneg_iff {x : ℕ} (hx : x<wordSize) : 0 ≤ isPow2 x ↔ ∃ k,x=2^k := by
  constructor
  · intro h
    exact ⟨_,(isPow2_sound hx (not_lt.mpr h)).2⟩
  · rintro ⟨k,rfl⟩
    have hk : k<64 := (Nat.pow_lt_pow_iff_right (by omega)).mp hx
    rw [isPow2_two_pow hk]
    exact Int.natCast_nonneg k

variable {page bsiz rblk wblk hpage rsp wsp : ℕ} {area scr : Option ShmS} {buf out : BufS}
  {rline wline rcrc wcrc : Bool}

/-- Construction establishes the buffer invariant. For all admitted sizes, every
page, every huge page and every pair of resume points, constructors that accept
have wrapped nowhere and leave the geometry behind, and the bit loop accepts
exactly the powers of two. -/
theorem construction_establishes (hs : Sizes page bsiz rblk wblk hpage)
    (hc : bufCtor page area scr bsiz rblk wblk hpage=some buf)
    (he : bufSetextra buf rline wline rcrc wcrc rsp wsp=some out) :
    NoWrap page bsiz rblk wblk hpage out ∧ Constructed bsiz rblk wblk out ∧
    ∀ x<wordSize,(0 ≤ isPow2 x ↔ ∃ k,x=2^k) :=
  ⟨(hs.built hc he).1,(hs.built hc he).2,fun _ hx => isPow2_nonneg_iff hx⟩

/-- Under a huge page of 6000 bytes, 4096 bytes become a ring of 8192. -/
theorem construction_establishes_odd :
    ∃ buf out,bufCtor 4096 smallHost.area smallHost.scr 4096 3 5 6000=some buf ∧
      bufSetextra buf false true true false 4000 100=some out ∧ out.size=8192 ∧
      NoWrap 4096 4096 3 5 6000 out ∧ Constructed 4096 3 5 out := by
  have hs : Sizes 4096 4096 3 5 6000 := by
    refine ⟨⟨12,rfl⟩,le_refl 4096,?_,?_,?_,?_,?_,?_⟩ <;> norm_num [defMaxblk,defMaxhpage]
  have hr : ((bufCtor 4096 smallHost.area smallHost.scr 4096 3 5 6000).bind fun buf =>
      bufSetextra buf false true true false 4000 100).map BufS.size=some 8192 := rfl
  obtain ⟨out,hb,hsiz⟩ := Option.map_eq_some_iff.mp hr
  obtain ⟨buf,hc,he⟩ := Option.bind_eq_some_iff.mp hb
  obtain ⟨hn,hg,_⟩ := construction_establishes hs hc he
  exact ⟨buf,out,hc,he,hsiz,hn,hg⟩

end Yancat.Construction
