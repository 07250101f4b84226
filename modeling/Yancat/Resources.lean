import Mathlib.Data.Multiset.Pairwise
import Mathlib.Tactic

/-!
# Programs that hold resources

Programs that acquire and release resources of an environment that may refuse.
A world keeps what is held, and no two things held clash. The environment
answers from a stream, so that a statement about every world is one about every
behaviour of the environment. What a program needs and keeps is stated with a
frame: whatever else is held stays untouched. What it results in is also stated
alone, for programs that may not hold what they use.
-/

namespace Yancat.Resources

variable {ρ : Type} {clash : ρ → ρ → Prop} {α β : Type}

/-- The state of the environment. -/
structure World (clash : ρ → ρ → Prop) where
  /-- What is held. -/
  held : Multiset ρ
  /-- No two things held clash. -/
  apart : held.Pairwise fun a b => ¬clash a b
  /-- Uses and releases of what was not held. -/
  faults : ℕ
  /-- What the environment answers, the next answer first. -/
  answers : ℕ → ℤ

/-- A program over such a state. -/
abbrev Prog (clash : ρ → ρ → Prop) : Type → Type := StateM (World clash)

/-- The next answer of the environment. -/
def ask : Prog clash ℤ := fun w => (w.answers 0,{w with answers := fun n => w.answers (n+1)})

/-- Things that clash with nothing that is held, nor among themselves. -/
def Free (clash : ρ → ρ → Prop) (rs : List ρ) (held : Multiset ρ) : Prop :=
  rs.Pairwise (fun a b => ¬clash a b) ∧ ∀ r∈rs,∀ x∈held,¬clash r x

instance [DecidableRel clash] (rs : List ρ) (held : Multiset ρ) :
    Decidable (Free clash rs held) := instDecidableAnd

/-- Free things may be held beside the others. -/
theorem Free.apart {rs : List ρ} {held : Multiset ρ} (h : Free clash rs held)
    (ha : held.Pairwise fun a b => ¬clash a b) :
    ((rs : Multiset ρ)+held).Pairwise fun a b => ¬clash a b := by
  obtain ⟨l,rfl,hl⟩ := ha
  exact ⟨rs++l,rfl,List.pairwise_append.mpr ⟨h.1,hl,fun r hr x hx => h.2 r hr x hx⟩⟩

/-- Acquire things together, unless one of them is not free. -/
def acquire [DecidableRel clash] (rs : List ρ) : Prog clash Bool := fun w =>
  if h : Free clash rs w.held then (true,{w with held := rs+w.held,apart := h.apart w.apart})
  else (false,w)

/-- Ask for something that the environment names, and acquire what comes with the
name. The environment refuses with a negative answer, with a name that does not
suit, and when something is not free. -/
def grant [DecidableRel clash] (suits : ℕ → Bool) (rs : ℕ → List ρ) : Prog clash (Option ℕ) := do
  let a ← ask
  if 0 ≤ a ∧ suits a.toNat=true then
    let ok ← acquire (rs a.toNat)
    pure (if ok=true then some a.toNat else none)
  else pure none

/-- A call that acquires nothing and succeeds or fails. -/
def succeeds : Prog clash Bool := do
  let a ← ask
  pure (decide (0 ≤ a))

/-- What remains of things that do not clash does not clash. -/
theorem apart_erase [DecidableEq ρ] {held : Multiset ρ} (r : ρ)
    (h : held.Pairwise fun a b => ¬clash a b) :
    (held.erase r).Pairwise fun a b => ¬clash a b := by
  obtain ⟨l,rfl,hl⟩ := h
  exact ⟨l.erase r,rfl,hl.sublist List.erase_sublist⟩

/-- Release a thing. That is a fault unless it is held. -/
def release [DecidableEq ρ] (r : ρ) : Prog clash Unit := fun w =>
  if r∈w.held then ((),{w with held := w.held.erase r,apart := apart_erase r w.apart})
  else ((),{w with faults := w.faults+1})

/-- Use a thing. That is a fault unless it is held. -/
def touch [DecidableEq ρ] (r : ρ) : Prog clash Unit := fun w =>
  if r∈w.held then ((),w) else ((),{w with faults := w.faults+1})

/-- From a world that holds `need` a program comes without a fault to one that
holds what the postcondition allows in its place, whatever is held beside. -/
def Uses (need : Multiset ρ) (m : Prog clash α) (post : α → Multiset ρ → Prop) : Prop :=
  ∀ (frame : Multiset ρ) (w : World clash),w.held=need+frame →
    ∃ keep,post (m w).1 keep ∧ (m w).2.held=keep+frame ∧ (m w).2.faults=w.faults

variable {need : Multiset ρ} {m : Prog clash α} {post post' : α → Multiset ρ → Prop}

/-- A result keeps what there was. -/
theorem Uses.pure {a : α} (h : post a need) : Uses need (pure a : Prog clash α) post :=
  fun _ _ hw => ⟨need,h,hw,rfl⟩

/-- Postconditions weaken. -/
theorem Uses.mono (h : Uses need m post) (hp : ∀ a keep,post a keep → post' a keep) :
    Uses need m post' := by
  intro frame w hw
  obtain ⟨keep,hk,hh,hf⟩ := h frame w hw
  exact ⟨keep,hp _ _ hk,hh,hf⟩

/-- Programs compose. -/
theorem Uses.bind {f : α → Prog clash β} {mid : α → Multiset ρ → Prop}
    {post : β → Multiset ρ → Prop} (h : Uses need m mid)
    (hf : ∀ a keep,mid a keep → Uses keep (f a) post) : Uses need (m>>=f) post := by
  intro frame w hw
  obtain ⟨keep,hk,hh,hfa⟩ := h frame w hw
  obtain ⟨keep',hk',hh',hfa'⟩ := hf _ _ hk frame (m w).2 hh
  exact ⟨keep',hk',hh',hfa'.trans hfa⟩

/-- Programs compose where it is known what the first one keeps. -/
theorem Uses.seq {f : α → Prog clash β} {mid : α → Multiset ρ} {post : β → Multiset ρ → Prop}
    (h : Uses need m fun a keep => keep=mid a) (hf : ∀ a,Uses (mid a) (f a) post) :
    Uses need (m>>=f) post :=
  h.bind fun a keep hk => by rw [hk]; exact hf a

/-- What a program does not need it does not touch. -/
theorem Uses.frame (h : Uses need m post) (extra : Multiset ρ) :
    Uses (need+extra) m fun a keep => ∃ k,post a k ∧ keep=k+extra := by
  intro frame w hw
  rw [add_assoc] at hw
  obtain ⟨keep,hk,hh,hf⟩ := h (extra+frame) w hw
  exact ⟨keep+extra,⟨keep,hk,rfl⟩,by rw [hh,add_assoc],hf⟩

/-- A program that needs part of what there is. -/
theorem Uses.part {have' rest : Multiset ρ} (h : Uses need m post) (he : have'=need+rest)
    (hp : ∀ a keep,post a keep → post' a (keep+rest)) : Uses have' m post' := by
  rw [he]
  refine (h.frame rest).mono fun a keep => ?_
  rintro ⟨k,hk,rfl⟩
  exact hp a k hk

/-- The branches of a test. -/
theorem Uses.ite {c : Prop} [Decidable c] {m' : Prog clash α} (ht : c → Uses need m post)
    (he : ¬c → Uses need m' post) : Uses need (if c then m else m') post := by
  by_cases hc : c
  · rw [if_pos hc]
    exact ht hc
  · rw [if_neg hc]
    exact he hc

/-- An answer changes nothing. -/
theorem Uses.ask : Uses need (Resources.ask : Prog clash ℤ) fun _ keep => keep=need :=
  fun _ _ hw => ⟨need,rfl,hw,rfl⟩

/-- What is acquired is held, and nothing else changes. -/
theorem Uses.acquire [DecidableRel clash] (rs : List ρ) :
    Uses need (Resources.acquire rs : Prog clash Bool) fun ok keep =>
      keep=if ok=true then rs+need else need := by
  intro frame w hw
  unfold Resources.acquire
  split
  · have hh : rs+w.held=rs+need+frame := by rw [hw,add_assoc]
    exact ⟨rs+need,rfl,hh,rfl⟩
  · exact ⟨need,rfl,hw,rfl⟩

/-- What was granted is held, under a name that suits. -/
theorem Uses.grant [DecidableRel clash] (suits : ℕ → Bool) (rs : ℕ → List ρ) :
    Uses need (Resources.grant suits rs : Prog clash (Option ℕ)) fun r keep =>
      r=none ∧ keep=need ∨ ∃ a,r=some a ∧ suits a=true ∧ keep=rs a+need := by
  refine Uses.ask.seq fun a => ?_
  refine Uses.ite (fun hs => ?_) fun _ => .pure (.inl ⟨rfl,rfl⟩)
  refine (Uses.acquire _).seq fun ok => .pure ?_
  cases ok with
  | true => exact .inr ⟨a.toNat,rfl,hs.2,rfl⟩
  | false => exact .inl ⟨rfl,rfl⟩

/-- Such a call changes nothing. -/
theorem Uses.succeeds : Uses need (Resources.succeeds : Prog clash Bool) fun _ keep => keep=need :=
  Uses.ask.bind fun _ _ hk => .pure hk

/-- What is released is no longer held. -/
theorem Uses.release [DecidableEq ρ] (r : ρ) :
    Uses {r} (Resources.release r : Prog clash Unit) fun _ keep => keep=0 := by
  intro frame w hw
  have hm : r∈w.held := by
    rw [hw]
    exact Multiset.mem_add.mpr (.inl (Multiset.mem_singleton_self r))
  unfold Resources.release
  rw [if_pos hm]
  have hh : w.held.erase r=0+frame := by
    rw [hw,Multiset.singleton_add,Multiset.erase_cons_head,zero_add]
  exact ⟨0,rfl,hh,rfl⟩

/-- What is released is no longer held, and what is beside it stays. -/
theorem Uses.drop [DecidableEq ρ] (r : ρ) (rest : Multiset ρ) :
    Uses ({r}+rest) (Resources.release r : Prog clash Unit) fun _ keep => keep=rest :=
  (Uses.release r).part rfl fun _ _ hk => by rw [hk,zero_add]

/-- What is held may be used. -/
theorem Uses.touch [DecidableEq ρ] {r : ρ} (h : r∈need) :
    Uses need (Resources.touch r : Prog clash Unit) fun _ keep => keep=need := by
  intro frame w hw
  have hm : r∈w.held := by
    rw [hw]
    exact Multiset.mem_add.mpr (.inl h)
  unfold Resources.touch
  rw [if_pos hm]
  exact ⟨need,rfl,hw,rfl⟩

/-- Whatever the environment answers and whatever is held, the result of a program is
one that the postcondition allows. -/
def Yields (m : Prog clash α) (post : α → Prop) : Prop := ∀ w,post (m w).1

section Yields

variable {post post' : α → Prop}

/-- A result is what it is. -/
theorem Yields.pure {a : α} (h : post a) : Yields (pure a : Prog clash α) post := fun _ => h

/-- Postconditions on results weaken. -/
theorem Yields.mono (h : Yields m post) (hp : ∀ a,post a → post' a) : Yields m post' :=
  fun w => hp _ (h w)

/-- Results pass from program to program. -/
theorem Yields.bind {f : α → Prog clash β} {post' : β → Prop} (h : Yields m post)
    (hf : ∀ a,post a → Yields (f a) post') : Yields (m>>=f) post' :=
  fun w => hf _ (h w) (m w).2

/-- Nothing is known of the result of the first program. -/
theorem Yields.seq {f : α → Prog clash β} {post' : β → Prop} (hf : ∀ a,Yields (f a) post') :
    Yields (m>>=f) post' :=
  fun w => hf _ (m w).2

/-- The branches of a test. -/
theorem Yields.ite {c : Prop} [Decidable c] {m' : Prog clash α} (ht : c → Yields m post)
    (he : ¬c → Yields m' post) : Yields (if c then m else m') post := by
  by_cases hc : c
  · rw [if_pos hc]
    exact ht hc
  · rw [if_neg hc]
    exact he hc

/-- A program that needs nothing yields what its postcondition allows. -/
theorem Uses.yields (h : Uses 0 m fun a _ => post a) : Yields m post := by
  intro w
  obtain ⟨_,hp,_⟩ := h w.held w (zero_add w.held).symm
  exact hp

end Yields

/-- No two different things that are held clash. -/
theorem World.not_clash (w : World clash) (hs : ∀ a b,clash a b → clash b a) {a b : ρ}
    (ha : a∈w.held) (hb : b∈w.held) (hne : a≠b) : ¬clash a b := by
  have hsymm : Std.Symm fun a b => ¬clash a b := ⟨fun a b h hc => h (hs b a hc)⟩
  exact w.apart.forall ha hb hne

/-- Two things that are held together do not clash, even when they are equal. -/
theorem World.apart_pair (w : World clash) (hs : ∀ a b,clash a b → clash b a) {a b : ρ}
    (h : {a}+{b} ≤ w.held) : ¬clash a b := by
  obtain ⟨l,hl,hp⟩ := w.apart
  have hsub : (↑[a,b] : Multiset ρ) ≤ ↑l := hl ▸ h
  obtain ⟨l',hperm,hsubl⟩ := Multiset.coe_le.mp hsub
  have hp' := (hperm.pairwise_iff fun hn hc => hn (hs _ _ hc)).mp (hp.sublist hsubl)
  exact List.rel_of_pairwise_cons hp' (List.mem_singleton_self b)

end Yancat.Resources
