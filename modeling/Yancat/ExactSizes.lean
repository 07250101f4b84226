import Yancat.OptionRuns

/-!
# Sizes as they are written

A decimal number with a suffix is converted to its product modulo the word size,
or rejected when the number alone does not fit. So a result is exact as long as
the product fits; a product that wraps around can fall back into the range of an
option.
-/

namespace Yancat.ExactSizes

open Strings Common WordArithmetic Options OptionRuns

/-- The multiplier of an optional suffix. -/
def factor : Option Char → Option ℕ
  | none => some 1
  | some c => multiplier c

/-- A number with an optional suffix. -/
def sizeText (ds : List Char) (suffix : Option Char) : List Char := ds++suffix.toList

/-- What is converted without an error is the number. -/
def ExactNumber (t : List Char) (n : ℕ) : Prop := (getUl t).2=none → (getUl t).1=n

/-- The options that take a size. -/
def sizeOpts : List Char := ['b','B','m','n','N','H']

/-- Every option that takes a size stores the number, if the command line is
accepted. -/
def ExactOptions (t : List Char) (n : ℕ) : Prop :=
  ∀ (δ : Type) (E : Env δ) (args : List Opt) (opts : OptionsS δ),
    optParse E args=some (.ok opts) → ∀ c∈sizeOpts,∀ s,lastArg c args=some s → s.chars=t →
      sizeField opts c=n

variable {ds : List Char} {suffix : Option Char} {m n x : ℕ} {t : List Char}

/-- A suffix ends a number. -/
theorem endsNumber_suffix (hm : factor suffix=some m) : EndsNumber suffix.toList := by
  cases suffix with
  | none => exact fun c hc => by cases hc
  | some c =>
    intro c' hc'
    rw [←Option.some.inj hc']
    rw [factor] at hm
    unfold multiplier at hm
    split at hm <;> first | cases hm; done | decide

/-- A suffix multiplies, with wrap-around. -/
theorem scaled_suffix (hm : factor suffix=some m) (hx : x<wordSize) :
    scaled x suffix.toList=some (x*m%wordSize) := by
  have hone : some x=some (x*1%wordSize) := by rw [Nat.mul_one,Nat.mod_eq_of_lt hx]
  cases suffix with
  | none =>
    cases hm
    exact hone
  | some c =>
    rw [factor] at hm
    unfold multiplier at hm
    split at hm
    · cases hm
      exact hone
    · cases hm
      exact hone
    · cases hm
      rfl
    · cases hm
      exact congrArg (fun y => some (y%wordSize)) (Nat.shiftLeft_eq x 10)
    · cases hm
      rfl
    · cases hm
      exact congrArg (fun y => some (y%wordSize)) (Nat.shiftLeft_eq x 20)
    · cases hm
      rfl
    · cases hm
      exact congrArg (fun y => some (y%wordSize)) (Nat.shiftLeft_eq x 30)
    · cases hm

/-- A number with a suffix is converted to the product modulo the word size, or
does not fit. -/
theorem getUl_size (hd : ∀ d∈ds,d.isDigit=true) (hm : factor suffix=some m) :
    getUl (sizeText ds suffix)=
      if wordSize ≤ decimal ds then (0,some .erange) else (decimal ds*m%wordSize,none) := by
  have hpos : 0<wordSize := by decide
  rw [getUl,sizeText,strtoul_digits hd (endsNumber_suffix hm) hpos]
  by_cases hfit : wordSize ≤ decimal ds
  · rw [if_pos hfit,if_pos hfit]
    rfl
  · rw [if_neg hfit,if_neg hfit]
    dsimp only
    rw [if_neg Bool.false_ne_true,scaled_suffix hm (Nat.not_le.mp hfit)]

/-- The conversion is exact as long as the product fits. -/
theorem exactNumber_iff (hd : ∀ d∈ds,d.isDigit=true) (hm : factor suffix=some m) :
    ExactNumber (sizeText ds suffix) (decimal ds*m) ↔
      wordSize ≤ decimal ds ∨ decimal ds*m<wordSize := by
  rw [ExactNumber,getUl_size hd hm]
  by_cases hfit : wordSize ≤ decimal ds
  · rw [if_pos hfit]
    refine iff_of_true (fun h => ?_) (.inl hfit)
    cases h
  · rw [if_neg hfit,or_iff_right hfit]
    have hpos : 0<wordSize := by decide
    constructor
    · intro h
      rw [←h rfl]
      exact Nat.mod_lt _ hpos
    · exact fun h _ => Nat.mod_eq_of_lt h

/-- Every option that takes a size has a range. -/
theorem sizeRange_of_mem {δ : Type} (E : Env δ) {c : Char} (h : c∈sizeOpts) :
    ∃ lo hi,sizeRange E c=some (lo,hi) := by
  simp only [sizeOpts,List.mem_cons,List.not_mem_nil,or_false] at h
  rcases h with rfl|rfl|rfl|rfl|rfl|rfl <;> exact ⟨_,_,rfl⟩

/-- What is converted exactly is stored exactly. -/
theorem ExactNumber.options (h : ExactNumber t n) : ExactOptions t n := by
  intro δ E args opts hopts c hc s hs ht
  obtain ⟨lo,hi,hrange⟩ := sizeRange_of_mem E hc
  have hstored := optParse_stored hopts hrange
  rw [hs] at hstored
  obtain ⟨herr,hval,_⟩ := optSize_ok hstored
  rw [ht] at herr hval
  rw [←hval]
  exact h herr

/-- For decimal digits with an optional suffix the conversion is exact, and with it
every size that an accepted command line stores, exactly when the digits alone are
rejected or the product fits. -/
theorem get_ul_exact (ds : List Char) (suffix : Option Char) (m : ℕ)
    (hd : ∀ d∈ds,d.isDigit=true) (hm : factor suffix=some m) :
    ExactNumber (sizeText ds suffix) (decimal ds*m) ∧
      ExactOptions (sizeText ds suffix) (decimal ds*m) ↔
    wordSize ≤ decimal ds ∨ decimal ds*m<wordSize := by
  rw [←exactNumber_iff hd hm]
  exact and_iff_left_of_imp ExactNumber.options

/-- A size in thousands. -/
theorem get_ul_exact_kilo :
    ExactNumber "64K".toList 64000 ∧ ExactOptions "64K".toList 64000 := by
  have hfits : decimal ['6','4']*1000<wordSize := by
    rw [wordSize_eq,show decimal ['6','4']=64 from rfl]
    omega
  have hd : ∀ d∈['6','4'],d.isDigit=true := List.all_eq_true.mp rfl
  exact (get_ul_exact ['6','4'] (some 'K') 1000 hd rfl).mpr (.inr hfits)

/-- A product just above the word size. -/
def wrapped : List Char := "18446744073709552K".toList

/-- It is converted to another number without an error, and accepted as a block size. -/
theorem get_ul_wraps : getUl wrapped=(384,none) ∧
    (∃ opts,optParse linuxEnv [.arg 'b' ⟨wrapped,by decide⟩]=some (.ok opts) ∧
      opts.rblk=384) ∧
    ¬ExactNumber wrapped (18446744073709552*1000) := by
  have hget : getUl wrapped=(384,none) := by decide
  refine ⟨hget,⟨{setDefault linuxEnv with rblk := 384},by rfl,rfl⟩,fun h => ?_⟩
  rw [ExactNumber,hget] at h
  exact absurd (h rfl) (by decide)

end Yancat.ExactSizes
