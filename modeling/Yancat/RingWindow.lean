import Mathlib.Data.List.Basic
import Mathlib.Logic.Function.Basic
import Mathlib.Tactic

/-!
# Cyclic windows over a flat memory

A memory is a function from cells to values. Bulk loads and stores go through
an address map, so that a contiguous area and a ring that wraps are the same
operation at two maps. The window of a ring is the list read from a position
onward; the laws below are those of a bounded queue: windows split, advancing
the position drops the head, a store reads back as the stored list, and the
cells behind a window are outside it.
-/

namespace Yancat.RingWindow

variable {α : Type*}

/-- The `n` values at the addresses `cell 0`, `cell 1` and so on. -/
def load (cell : ℕ → ℕ) (n : ℕ) (m : ℕ → α) : List α :=
  (List.range n).map fun i => m (cell i)

/-- Store a list at the addresses `cell 0`, `cell 1` and so on, in order. -/
def store (cell : ℕ → ℕ) : List α → (ℕ → α) → ℕ → α
  | [],m => m
  | b::bs,m => store (fun i => cell (i+1)) bs (Function.update m (cell 0) b)

/-- A load returns as many values as were asked for. -/
@[simp] theorem load_length (cell : ℕ → ℕ) (n : ℕ) (m : ℕ → α) :
    (load cell n m).length=n := by
  simp only [load,List.length_map,List.length_range]

/-- The value at one index of a load. -/
theorem load_getElem? (cell : ℕ → ℕ) {n i : ℕ} (m : ℕ → α) (hi : i<n) :
    (load cell n m)[i]?=some (m (cell i)) := by
  simp only [load,List.getElem?_map,List.getElem?_range hi,Option.map_some]

/-- Loads agree as soon as the visited cells hold equal values. -/
theorem load_congr {cell cell' : ℕ → ℕ} {n : ℕ} {m m' : ℕ → α}
    (h : ∀ i<n,m (cell i)=m' (cell' i)) : load cell n m=load cell' n m' := by
  apply List.map_congr_left
  intro i hi
  exact h i (List.mem_range.mp hi)

/-- A load splits at every length. -/
theorem load_add (cell : ℕ → ℕ) (a b : ℕ) (m : ℕ → α) :
    load cell (a+b) m=load cell a m++load (fun i => cell (a+i)) b m := by
  simp only [load,List.range_add,List.map_append,List.map_map]
  rfl

/-- A shorter load is a prefix of a longer one. -/
theorem load_take (cell : ℕ → ℕ) {k n : ℕ} (m : ℕ → α) (hk : k≤n) :
    (load cell n m).take k=load cell k m := by
  obtain ⟨d,rfl⟩ := Nat.exists_eq_add_of_le hk
  rw [load_add,List.take_append_of_le_length (by rw [load_length])]
  rw [List.take_of_length_le (by rw [load_length])]

/-- A store changes only the cells it visits. -/
theorem store_other {cell : ℕ → ℕ} {bs : List α} {m : ℕ → α} {a : ℕ}
    (h : ∀ i<bs.length,cell i≠a) : store cell bs m a=m a := by
  induction bs generalizing cell m with
  | nil => rfl
  | cons b bs ih =>
    rw [store,ih fun i hi => h (i+1) (by simpa using hi)]
    exact Function.update_of_ne (h 0 (by simp)).symm _ _

/-- A store through an injective address map puts each value in its cell. -/
theorem store_cell {cell : ℕ → ℕ} {bs : List α} {m : ℕ → α}
    (hinj : ∀ i<bs.length,∀ j<bs.length,cell i=cell j → i=j) {i : ℕ} (hi : i<bs.length) :
    some (store cell bs m (cell i))=bs[i]? := by
  induction bs generalizing cell m i with
  | nil => exact absurd hi (Nat.not_lt_zero i)
  | cons b bs ih =>
    have htail : ∀ i<bs.length,∀ j<bs.length,cell (i+1)=cell (j+1) → i=j := by
      intro i hi j hj he
      have := hinj (i+1) (by simpa using hi) (j+1) (by simpa using hj) he
      omega
    cases i with
    | zero =>
      rw [store,store_other]
      · rw [Function.update_self,List.getElem?_cons_zero]
      · intro j hj he
        have := hinj (j+1) (by simpa using hj) 0 (by simp) he
        omega
    | succ i =>
      have hi' : i<bs.length := by simpa using hi
      rw [List.getElem?_cons_succ,store]
      exact ih htail hi'

/-- Reading back a store through the same injective map. -/
theorem load_store {cell : ℕ → ℕ} {bs : List α} {m : ℕ → α}
    (hinj : ∀ i<bs.length,∀ j<bs.length,cell i=cell j → i=j) :
    load cell bs.length (store cell bs m)=bs := by
  apply List.ext_getElem?
  intro i
  by_cases hi : i<bs.length
  · rw [load_getElem? _ _ hi,store_cell hinj hi]
  · rw [List.getElem?_eq_none (by rw [load_length]; omega),
      List.getElem?_eq_none (by omega)]

/-- Storing depends only on the visited part of the address map. -/
theorem store_congr {cell cell' : ℕ → ℕ} {bs : List α} (m : ℕ → α)
    (h : ∀ i<bs.length,cell i=cell' i) : store cell bs m=store cell' bs m := by
  induction bs generalizing cell cell' m with
  | nil => rfl
  | cons b bs ih =>
    rw [store,store,h 0 (by simp)]
    exact ih _ fun i hi => h (i+1) (by simpa using hi)

/-- A store splits at every position of the list. -/
theorem store_append (cell : ℕ → ℕ) (xs ys : List α) (m : ℕ → α) :
    store cell (xs++ys) m=store (fun i => cell (xs.length+i)) ys (store cell xs m) := by
  induction xs generalizing cell m with
  | nil => simp only [List.nil_append,List.length_nil,Nat.zero_add,store]
  | cons x xs ih =>
    rw [List.cons_append,store,ih,store]
    congr 1
    funext i
    simp only [List.length_cons]
    congr 1
    omega

/-- The cell of offset `i` in a ring read from `pos`. -/
def ringCell (size pos i : ℕ) : ℕ := (pos+i)%size

/-- The `n` values of a ring of `size` cells from `pos` onward. -/
def window (size pos n : ℕ) (m : ℕ → α) : List α := load (ringCell size pos) n m

/-- Within one turn two offsets of the same position name the same cell only
when they are equal. -/
theorem ringCell_inj {size pos i j : ℕ} (hi : i<size) (hj : j<size)
    (h : ringCell size pos i=ringCell size pos j) : i=j := by
  have hm : i≡j [MOD size] := Nat.ModEq.add_left_cancel' pos h
  exact Nat.ModEq.eq_of_lt_of_lt hm hi hj

/-- Advancing the position is advancing the offset. -/
theorem ringCell_shift (size pos k i : ℕ) :
    ringCell size ((pos+k)%size) i=ringCell size pos (k+i) := by
  unfold ringCell
  rw [Nat.mod_add_mod,Nat.add_assoc]

/-- An address below the end of the ring needs no reduction. -/
theorem ringCell_flat {size pos i n : ℕ} (hi : i<n) (hn : pos+n ≤ size) :
    ringCell size pos i=pos+i := Nat.mod_eq_of_lt (by omega)

/-- The length of a window. -/
@[simp] theorem window_length (size pos n : ℕ) (m : ℕ → α) :
    (window size pos n m).length=n := load_length _ _ _

/-- A window splits into its head and the window after it. -/
theorem window_add (size pos a b : ℕ) (m : ℕ → α) :
    window size pos (a+b) m=window size pos a m++window size ((pos+a)%size) b m := by
  unfold window
  rw [load_add]
  congr 1
  exact load_congr fun i _ => by rw [ringCell_shift]

/-- Advancing the position of a window drops its head. -/
theorem window_drop (size pos k d : ℕ) (m : ℕ → α) :
    (window size pos (k+d) m).drop k=window size ((pos+k)%size) d m := by
  rw [window_add,List.drop_append_of_le_length (by rw [window_length])]
  rw [List.drop_of_length_le (by rw [window_length]),List.nil_append]

/-- A shorter window is a prefix of a longer one. -/
theorem window_take (size pos : ℕ) {k n : ℕ} (m : ℕ → α) (hk : k≤n) :
    (window size pos n m).take k=window size pos k m := load_take _ _ hk

/-- The cells directly behind a window are outside it while both fit in one
turn of the ring. -/
theorem ringCell_behind {size pos fill i j : ℕ} (hi : fill+i<size) (hj : j<fill) :
    ringCell size ((pos+fill)%size) i≠ringCell size pos j := by
  rw [ringCell_shift]
  intro he
  have := ringCell_inj hi (by omega : j<size) he
  omega

/-- A store that fits in one turn reads back as the stored list. -/
theorem window_store {size pos : ℕ} {bs : List α} (m : ℕ → α) (hfit : bs.length ≤ size) :
    window size pos bs.length (store (ringCell size pos) bs m)=bs :=
  load_store fun _ hi _ hj he => ringCell_inj (by omega) (by omega) he

/-- Two stores, up to the end of the ring and from its start, are one cyclic
store. -/
theorem store_wrapped {size pos : ℕ} {xs ys : List α} (m : ℕ → α)
    (hy : ys≠[] → pos+xs.length=size) :
    store (ringCell size 0) ys (store (ringCell size pos) xs m)=
      store (ringCell size pos) (xs++ys) m := by
  rw [store_append]
  apply store_congr
  intro i hi
  have he := hy (List.ne_nil_of_length_pos (by omega))
  unfold ringCell
  rw [←Nat.add_assoc,he,Nat.add_mod_left,Nat.zero_add]

/-- Two loads, up to the end of the ring and from its start, are one window. -/
theorem window_wrapped {size pos a b : ℕ} (m : ℕ → α) (hb : 0<b → pos+a=size) :
    window size pos a m++window size 0 b m=window size pos (a+b) m := by
  rw [window_add]
  congr 1
  apply load_congr
  intro i hi
  rw [hb (by omega),Nat.mod_self]

end Yancat.RingWindow
