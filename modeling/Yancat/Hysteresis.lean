import Mathlib.Data.List.Basic
import Mathlib.Tactic

/-!
# Latches over a history

A latch is closed by some events and opened by others, each of them counting
only in the other position. Its position is a function of the events so far,
and once closed it stays closed through any events that do not open it.
-/

namespace Yancat.Hysteresis

/-- The events that close and that open a latch. -/
structure Latch (ε : Type*) where
  /-- Closes an open latch. -/
  closes : ε → Bool
  /-- Opens a closed latch. -/
  opens : ε → Bool

variable {ε : Type*} (L : Latch ε) {b : Bool} {e : ε} {pre mid : List ε}

/-- The position after one event: true when closed. -/
def Latch.next (b : Bool) (e : ε) : Bool := if b=true then !L.opens e else L.closes e

/-- The position after a history. -/
def Latch.after (b : Bool) (es : List ε) : Bool := es.foldl L.next b

/-- The position after one more event. -/
theorem Latch.after_snoc (b : Bool) (es : List ε) (e : ε) :
    L.after b (es++[e])=L.next (L.after b es) e := by
  rw [Latch.after,List.foldl_append]
  rfl

/-- An event that neither closes nor opens changes nothing. -/
theorem Latch.next_idle (hc : L.closes e=false) (ho : L.opens e=false) : L.next b e=b := by
  cases b with
  | true => rw [Latch.next,if_pos rfl,ho,Bool.not_false]
  | false => rw [Latch.next,if_neg Bool.false_ne_true,hc]

/-- A closed latch stays closed through events that do not open it. -/
theorem Latch.stays (h : ∀ e∈mid,L.opens e=false) : L.after true mid=true := by
  induction mid with
  | nil => rfl
  | cons e mid ih =>
    have he : L.next true e=true := by
      rw [Latch.next,if_pos rfl,h e List.mem_cons_self,Bool.not_false]
    rw [Latch.after,List.foldl_cons,he]
    exact ih fun e' he' => h e' (List.mem_cons_of_mem e he')

/-- An event after which the latch is closed keeps it closed through events
that do not open it. -/
theorem Latch.since (hc : L.next (L.after b pre) e=true) (h : ∀ e∈mid,L.opens e=false) :
    L.after b (pre++e::mid)=true := by
  rw [Latch.after,List.foldl_append,List.foldl_cons]
  change L.after (L.next (L.after b pre) e) mid=true
  rw [hc]
  exact L.stays h

end Yancat.Hysteresis
