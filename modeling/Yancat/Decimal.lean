import Yancat.Strings

/-!
# Printed numbers

What the conversions of `printf` to base ten give, and that `strtoul` reads a
printed number back, modulo the range of its result where the number is
negative.
-/

namespace Yancat.Strings

/-- What `%u` prints. -/
def printNat (n : ℕ) : List Char := Nat.toDigits 10 n

/-- What `%d` prints. -/
def printInt (x : ℤ) : List Char := if x<0 then '-'::printNat x.natAbs else printNat x.natAbs

/-- Printed numbers are digits. -/
theorem printNat_digits (n : ℕ) : ∀ d∈printNat n,d.isDigit=true :=
  fun _ hd => Nat.isDigit_of_mem_toDigits (by decide) (by decide) hd

/-- The digits denote the number. -/
theorem decimal_printNat (n : ℕ) : decimal (printNat n)=n := Nat.ofDigitChars_ten_toDigits

/-- Something is printed. -/
theorem printNat_ne_nil (n : ℕ) : printNat n≠[] := Nat.toDigits_ne_nil

/-- A number is as long as its bound allows. -/
theorem printNat_length {n k : ℕ} (hk : 0<k) (h : n<10^k) : (printNat n).length ≤ k :=
  (Nat.length_toDigits_le_iff (by decide) hk).mpr h

/-- What is printed of a number is its sign and its digits. -/
theorem mem_printInt {x : ℤ} {c : Char} (h : c∈printInt x) : c= '-' ∨ c.isDigit=true := by
  unfold printInt at h
  split at h
  · exact (List.mem_cons.mp h).imp_right (printNat_digits _ c)
  · exact .inr (printNat_digits _ c h)

/-- Something is printed. -/
theorem printInt_ne_nil (x : ℤ) : printInt x≠[] := by
  unfold printInt
  split
  · exact List.cons_ne_nil _ _
  · exact printNat_ne_nil _

/-- A number with its sign is one longer than its bound allows. -/
theorem printInt_length {x : ℤ} {k : ℕ} (hk : 0<k) (h : x.natAbs<10^k) :
    (printInt x).length ≤ k+1 := by
  have hlen := printNat_length hk h
  unfold printInt
  split
  · exact Nat.succ_le_succ hlen
  · exact hlen.trans (Nat.le_succ k)

variable {limit : ℕ} {tail : List Char}

/-- A printed number that is not negative is read back. -/
theorem strtoul_printNat {n : ℕ} (hn : n<limit) (ht : EndsNumber tail) :
    strtoul limit (printNat n++tail)=⟨n,tail,false⟩ := by
  have hle : ¬limit ≤ decimal (printNat n) := by
    rw [decimal_printNat]
    exact Nat.not_le.mpr hn
  rw [strtoul_digits (printNat_digits n) ht (Nat.zero_lt_of_lt hn),if_neg hle,decimal_printNat]

/-- A printed number is read back modulo the range of the result. -/
theorem strtoul_printInt {x : ℤ} (hx : x.natAbs<limit) (ht : EndsNumber tail) :
    strtoul limit (printInt x++tail)=⟨(x%limit).toNat,tail,false⟩ := by
  unfold printInt
  by_cases hneg : x<0
  · obtain ⟨htake,hdrop⟩ := number_digits (printNat_digits x.natAbs) ht
    have hfront : signed ((('-'::printNat x.natAbs)++tail).dropWhile isSpace)=
        (true,printNat x.natAbs++tail) := rfl
    have hle : ¬limit ≤ decimal (printNat x.natAbs) := by
      rw [decimal_printNat]
      exact Nat.not_le.mpr hx
    have hval : (limit-x.natAbs)%limit=(x%limit).toNat := by
      have hx' : x=-(x.natAbs : ℤ) := by omega
      have hpos : 0<x.natAbs := by omega
      rw [Nat.mod_eq_of_lt (by omega)]
      have hmod : x%limit=limit-x.natAbs := by
        rw [←Int.add_emod_right,Int.emod_eq_of_lt] <;> omega
      rw [hmod]
      omega
    rw [if_pos hneg,strtoul,hfront]
    dsimp only
    rw [htake,hdrop,if_neg (printNat_ne_nil _),if_neg hle,if_pos rfl,decimal_printNat,hval]
  · have hval : x.natAbs=(x%limit).toNat := by
      rw [Int.emod_eq_of_lt] <;> omega
    rw [if_neg hneg,strtoul_printNat hx ht,←hval]

end Yancat.Strings
