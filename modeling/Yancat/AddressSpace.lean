import Yancat.RingWindow

/-!
# Memory behind a translation

Addresses are translated one by one to the cells of a memory, or to none, where
an access fails. An area is an enumeration of cells without repetition; seen
through it, an access to addresses that translate into the area is an access to
a flat memory, whatever the order in which the addresses visit the cells and
however often a cell has an address.
-/

namespace Yancat.AddressSpace

open RingWindow

variable {κ α β γ δ : Type}

/-- Read `n` values from an address on. -/
def loadVia (tr : ℕ → Option κ) (mem : κ → α) (a : ℕ) : ℕ → Option (List α)
  | 0 => some []
  | n+1 => (tr a).bind fun c => (loadVia tr mem (a+1) n).map fun bs => mem c::bs

/-- Write values from an address on. -/
def storeVia [DecidableEq κ] (tr : ℕ → Option κ) (a : ℕ) : List α → (κ → α) → Option (κ → α)
  | [],mem => some mem
  | b::bs,mem => (tr a).bind fun c => storeVia tr (a+1) bs (Function.update mem c b)

/-- The memory as an area sees it. -/
def seen (cells : ℕ → κ) (mem : κ → α) : ℕ → α := fun i => mem (cells i)

/-- A load over addresses of an area loads from what the area sees. -/
theorem loadVia_eq {tr : ℕ → Option κ} {mem : κ → α} {f : ℕ → ℕ} {c : ℕ → κ}
    {a n : ℕ} (h : ∀ i<n,tr (a+i)=some (c (f i))) :
    loadVia tr mem a n=some (load f n (seen c mem)) := by
  induction n generalizing a f with
  | zero => rfl
  | succ n ih =>
    have h0 := h 0 (Nat.succ_pos n)
    have hrest : ∀ i<n,tr (a+1+i)=some (c (f (1+i))) := by
      intro i hi
      rw [Nat.add_assoc]
      exact h (1+i) (by omega)
    have hsplit : load f (n+1) (seen c mem)=
        seen c mem (f 0)::load (fun i => f (1+i)) n (seen c mem) := by
      rw [Nat.add_comm n 1,load_add]
      rfl
    rw [loadVia,←Nat.add_zero a,h0,Nat.add_zero,Option.bind_some,ih hrest,hsplit]
    rfl

/-- A store over addresses of an area stores to what the area sees, and changes
no cell outside of the area. -/
theorem storeVia_eq [DecidableEq κ] {tr : ℕ → Option κ} {f : ℕ → ℕ} {c : ℕ → κ}
    (hc : Function.Injective c) {a : ℕ} {bs : List α} {m : κ → α}
    (h : ∀ i<bs.length,tr (a+i)=some (c (f i))) :
    ∃ m',storeVia tr a bs m=some m' ∧ seen c m'=store f bs (seen c m) ∧
      ∀ x,(∀ i,x≠c i) → m' x=m x := by
  induction bs generalizing a f m with
  | nil => exact ⟨m,rfl,rfl,fun _ _ => rfl⟩
  | cons b bs ih =>
    have h0 := h 0 (Nat.succ_pos bs.length)
    have hrest : ∀ i<bs.length,tr (a+1+i)=some (c (f (i+1))) := by
      intro i hi
      rw [Nat.add_assoc,Nat.add_comm 1 i]
      exact h (i+1) (Nat.succ_lt_succ hi)
    obtain ⟨m',hs,hseen,hother⟩ := ih (f:=fun i => f (i+1))
      (m:=Function.update m (c (f 0)) b) hrest
    refine ⟨m',?_,?_,fun x hx => ?_⟩
    · rw [storeVia,←Nat.add_zero a,h0,Nat.add_zero,Option.bind_some,hs]
    · rw [hseen,store]
      congr 1
      exact Function.update_comp_eq_of_injective m hc (f 0) b
    · rw [hother x hx,Function.update_of_ne (hx (f 0))]

/-- Where the upper computation succeeds the lower one does, with a related
result. -/
def Follows (R : β → α → Prop) (low : Option β) (high : Option α) : Prop :=
  ∀ x,high=some x → ∃ y,low=some y ∧ R y x

variable {R : β → α → Prop} {R' : δ → γ → Prop} {low low' : Option β} {high high' : Option α}

/-- Related results follow. -/
theorem Follows.some {y : β} {x : α} (h : R y x) : Follows R (some y) (some x) := by
  rintro x ⟨⟩
  exact ⟨y,rfl,h⟩

/-- Computations in sequence follow. -/
theorem Follows.bind {f : β → Option δ} {g : α → Option γ} (h : Follows R low high)
    (hf : ∀ y x,R y x → Follows R' (f y) (g x)) : Follows R' (low.bind f) (high.bind g) := by
  intro x hx
  obtain ⟨a,ha,hg⟩ := Option.bind_eq_some_iff.mp hx
  obtain ⟨y,hy,hR⟩ := h a ha
  obtain ⟨z,hz,hR'⟩ := hf y a hR x hg
  exact ⟨z,by rw [hy,Option.bind_some,hz],hR'⟩

/-- Results are changed alike. -/
theorem Follows.map {f : β → δ} {g : α → γ} (h : Follows R low high)
    (hf : ∀ y x,R y x → R' (f y) (g x)) : Follows R' (low.map f) (high.map g) := by
  intro x hx
  obtain ⟨a,ha,rfl⟩ := Option.map_eq_some_iff.mp hx
  obtain ⟨y,hy,hR⟩ := h a ha
  exact ⟨f y,by rw [hy,Option.map_some],hf y a hR⟩

/-- The branches of two tests that agree follow. -/
theorem Follows.ite {c c' : Prop} [Decidable c] [Decidable c'] (hc : c ↔ c')
    (h : Follows R low high) (h' : Follows R low' high') :
    Follows R (if c then low else low') (if c' then high else high') := by
  by_cases hd : c
  · rw [if_pos hd,if_pos (hc.mp hd)]
    exact h
  · rw [if_neg hd,if_neg (mt hc.mpr hd)]
    exact h'

end Yancat.AddressSpace
