import Mathlib.Data.List.Basic
import Mathlib.Tactic

/-!
# Cutting a list into blocks

The consecutive blocks of a fixed width of a list, the last one short or filled
up. A block inside the list does not change when the list grows, so the
blocks can be produced while the list is still arriving.
-/

namespace Yancat.Blocks

variable {α : Type*} {w n : ℕ} {pad : Option α} {xs ys : List α}

/-- The bytes that fill a block of a given length up, if that is asked for. -/
def filling (w : ℕ) (pad : Option α) (len : ℕ) : List α :=
  match pad with
  | none => []
  | some z => List.replicate (w-len) z

/-- The block of a given number, with its filling. -/
def block (w : ℕ) (pad : Option α) (xs : List α) (i : ℕ) : List α :=
  (xs.drop (i*w)).take w++filling w pad ((xs.drop (i*w)).take w).length

/-- All blocks of a list, the last one possibly short and none of them empty. -/
def blocks (w : ℕ) (pad : Option α) (xs : List α) : List (List α) :=
  (List.range ((xs.length+w-1)/w)).map (block w pad xs)

/-- A whole block needs no filling. -/
theorem filling_whole : filling w pad w=[] := by
  cases pad with
  | none => rfl
  | some z => rw [filling,Nat.sub_self,List.replicate_zero]

/-- Whole blocks stay the same when the list grows. -/
theorem block_append {i : ℕ} (hi : (i+1)*w≤xs.length) :
    block w pad (xs++ys) i=block w pad xs i := by
  rw [Nat.add_mul,Nat.one_mul] at hi
  have hd : (xs++ys).drop (i*w)=xs.drop (i*w)++ys := List.drop_append_of_le_length (by omega)
  have ht : (xs.drop (i*w)++ys).take w=(xs.drop (i*w)).take w :=
    List.take_append_of_le_length (by rw [List.length_drop]; omega)
  rw [block,block,hd,ht]

/-- Any number of whole blocks stays the same when the list grows. -/
theorem map_block_append (hn : n*w≤xs.length) :
    (List.range n).map (block w pad (xs++ys))=(List.range n).map (block w pad xs) := by
  apply List.map_congr_left
  intro i hi
  have hlt := List.mem_range.mp hi
  exact block_append ((Nat.mul_le_mul_right w hlt).trans hn)

/-- A number of blocks that covers the list, the last of them not empty, is all
of them. -/
theorem blocks_eq (hw : 0<w) (hlast : 0<n → (n-1)*w<xs.length) (hn : xs.length≤n*w) :
    blocks w pad xs=(List.range n).map (block w pad xs) := by
  have hcount : (xs.length+w-1)/w=n := by
    rcases Nat.eq_zero_or_pos n with rfl|hp
    · have : xs.length=0 := by omega
      rw [this]
      exact Nat.div_eq_of_lt (by omega)
    · have hl := hlast hp
      have hs : n*w=(n-1)*w+w := by
        rw [←Nat.succ_mul,Nat.succ_eq_add_one,Nat.sub_add_cancel hp]
      apply Nat.div_eq_of_lt_le
      · omega
      · rw [Nat.add_mul,Nat.one_mul]
        omega
  rw [blocks,hcount]

example : blocks 2 none [1,2,3,4,5]=[[1,2],[3,4],[5]] := by decide

example : blocks 2 (some 0) [1,2,3,4,5]=[[1,2],[3,4],[5,0]] := by decide

end Yancat.Blocks
