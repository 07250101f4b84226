import Yancat.Transition

/-!
# Sections of statements as single steps

A system some of whose steps are whole sections of statements, each run by one
party under a lock, and the system in which every statement of a section is a
step of its own. Where each statement commutes with whatever the others do
beside it, an open section may be taken to have happened at its first
statement: the runs by statements are runs by sections, and a rank for the
latter is one for the former.
-/

namespace Yancat.Sections

open Transition

/-- A system with sections. -/
structure System (σ α ι κ : Type*) where
  /-- The steps, a whole section being one of them. -/
  step : σ → α → Option σ
  /-- The party that takes a step, if it is one of them. -/
  who : α → Option ι
  /-- The holder of the lock. -/
  held : σ → Option ι
  /-- The step of a party that is a section. -/
  entry : ι → α
  /-- The first statement of a section, and what is left of the section. -/
  enter : ι → σ → Option (σ×κ)
  /-- The next statement of an open section, and what is left of it then. -/
  stmt : ι → κ → σ → σ×Option κ
  /-- A bound on the number of statements that come after the next one. -/
  left : κ → ℕ
  /-- Every statement leaves fewer. -/
  left_lt : ∀ i k s k',(stmt i k s).2=some k' → left k'<left k

/-- A state between two statements. -/
structure Mid (σ ι κ : Type*) where
  /-- The state proper. -/
  base : σ
  /-- What is left of the section that a party has open. -/
  inside : ι → Option κ

/-- Nobody has a section open. -/
def Mid.outside {σ ι κ : Type*} (s : σ) : Mid σ ι κ := ⟨s,fun _ => none⟩

/-- The steps between statements. -/
inductive Label (α ι : Type*)
  /-- A step that is not part of a section. -/
  | act (a : α)
  /-- The first statement of a section. -/
  | enter (i : ι)
  /-- The next statement of a section. -/
  | stmt (i : ι)

variable {σ α ι κ β : Type*}

/-- The state after a statement of a party, with what is left of its section. -/
def Mid.after [DecidableEq ι] (f : Mid σ ι κ) (i : ι) (r : σ×Option κ) :
    Mid σ ι κ :=
  ⟨r.1,Function.update f.inside i r.2⟩

/-- The party that made a statement has left what the statement leaves. -/
@[simp] theorem Mid.after_self [DecidableEq ι] (f : Mid σ ι κ) (i : ι) (r : σ×Option κ) :
    (f.after i r).inside i=r.2 :=
  Function.update_self _ _ _

/-- The other parties have what they had. -/
theorem Mid.after_other [DecidableEq ι] (f : Mid σ ι κ) {i j : ι} (h : j≠i) (r : σ×Option κ) :
    (f.after i r).inside j=f.inside j :=
  Function.update_of_ne h _ _

namespace System

variable (S : System σ α ι κ)

/-- A step is not part of a section, and its party has none open. -/
def free (f : Mid σ ι κ) (a : α) : Bool :=
  match S.who a with
  | none => true
  | some i => (f.inside i).isNone && (S.enter i f.base).isNone

/-- The restriction of a run by statements that a restriction of the runs by
sections comes to: it is checked where a section begins. -/
def allowed (ok : σ → α → Prop) (f : Mid σ ι κ) : Label α ι → Prop
  | .act a => ok f.base a
  | .enter i => ok f.base (S.entry i)
  | .stmt _ => True

variable {S} {ok : σ → α → Prop} {start s t : σ} {f f' : Mid σ ι κ} {l : Label α ι}
  {i : ι} {k : κ} {a : α}

/-- A free step is none of a section. -/
theorem free_iff :
    S.free f a=true ↔ ∀ i,S.who a=some i → f.inside i=none ∧ S.enter i f.base=none := by
  unfold free
  cases hw : S.who a with
  | none => simp
  | some i => simp [Option.isNone_iff_eq_none]

/-- The statements of an open section run to its end. -/
def finish (S : System σ α ι κ) (i : ι) (k : κ) (s : σ) : σ :=
  match _ : (S.stmt i k s).2 with
  | none => (S.stmt i k s).1
  | some k' => S.finish i k' (S.stmt i k s).1
termination_by S.left k
decreasing_by exact S.left_lt i k s k' ‹_›

/-- What is left after a statement run to its end. -/
def rest (S : System σ α ι κ) (i : ι) (r : σ×Option κ) : σ :=
  match r.2 with
  | none => r.1
  | some k => S.finish i k r.1

/-- A section is its next statement and the rest. -/
theorem finish_eq (S : System σ α ι κ) (i : ι) (k : κ) (s : σ) :
    S.finish i k s=S.rest i (S.stmt i k s) := by
  rw [finish]
  unfold rest
  split
  · next hk => rw [hk]
  · next hk => rw [hk]

/-- The last statement of a section is its end. -/
theorem finish_last (h : (S.stmt i k s).2=none) : S.finish i k s=(S.stmt i k s).1 := by
  rw [finish_eq]
  unfold rest
  rw [h]

/-- A section ends where what is left after a statement ends. -/
theorem finish_next {k' : κ} (h : (S.stmt i k s).2=some k') :
    S.finish i k s=S.finish i k' (S.stmt i k s).1 := by
  rw [finish_eq]
  unfold rest
  rw [h]

/-- What holds before the last statement of a section, and before any other one
if it holds after that, holds at every statement. -/
theorem stmt_induction {motive : κ → σ → Prop}
    (last : ∀ k s,(S.stmt i k s).2=none → motive k s)
    (next : ∀ k s k',(S.stmt i k s).2=some k' → motive k' (S.stmt i k s).1 → motive k s)
    (k : κ) (s : σ) : motive k s := by
  induction he : S.left k using Nat.strong_induction_on generalizing k s with
  | _ n ih =>
    subst he
    cases hk : (S.stmt i k s).2 with
    | none => exact last k s hk
    | some k' => exact next k s k' hk (ih _ (S.left_lt i k s k' hk) _ _ rfl)

/-- Whatever agrees with every next statement is the end of the section. -/
theorem finish_unique {r : κ → σ → σ}
    (hn : ∀ k s,(S.stmt i k s).2=none → r k s=(S.stmt i k s).1)
    (hs : ∀ k s k',(S.stmt i k s).2=some k' → r k s=r k' (S.stmt i k s).1) :
    S.finish i k s=r k s := by
  induction k,s using stmt_induction (S:=S) (i:=i) with
  | last k s hk => rw [finish_last hk,hn k s hk]
  | next k s k' hk ih => rw [finish_next hk,hs k s k' hk,ih]

/-- The state with the section of the holder run to its end. -/
def whole (S : System σ α ι κ) (f : Mid σ ι κ) : σ :=
  match S.held f.base with
  | none => f.base
  | some i =>
    match f.inside i with
    | none => f.base
    | some k => S.finish i k f.base

/-- The number of statements that may still come in the open section. -/
def due (S : System σ α ι κ) (f : Mid σ ι κ) : ℕ :=
  match S.held f.base with
  | none => 0
  | some i =>
    match f.inside i with
    | none => 0
    | some k => S.left k+1

/-- A state in which nobody has a section open stands for itself. -/
theorem whole_closed (h : ∀ i,f.inside i=none) : S.whole f=f.base ∧ S.due f=0 := by
  unfold whole due
  cases S.held f.base with
  | none => exact ⟨rfl,rfl⟩
  | some i =>
    dsimp only
    rw [h i]
    exact ⟨rfl,rfl⟩

/-- A state with an open section stands for the one at its end. -/
theorem whole_open (hh : S.held f.base=some i) (hk : f.inside i=some k) :
    S.whole f=S.finish i k f.base ∧ S.due f=S.left k+1 := by
  unfold whole due
  rw [hh]
  dsimp only
  rw [hk]
  exact ⟨rfl,rfl⟩

/-- What no statement of a section changes is the same at its end. -/
theorem whole_keeps {γ : Type*} {g : σ → γ} (hg : ∀ i k s,g (S.stmt i k s).1=g s)
    (f : Mid σ ι κ) : g (S.whole f)=g f.base := by
  have hfin : ∀ i k s,g (S.finish i k s)=g s := fun i k s => by
    induction k,s using stmt_induction (S:=S) (i:=i) with
    | last k s hk => rw [finish_last hk,hg i k s]
    | next k s k' hk ih => rw [finish_next hk,ih,hg i k s]
  unfold whole
  cases S.held f.base with
  | none => rfl
  | some i =>
    dsimp only
    cases f.inside i with
    | none => rfl
    | some k => exact hfin i k f.base

/-- What a step beside an open section has to do with its next statement. -/
structure Beside (S : System σ α ι κ) (ok : σ → α → Prop) (i : ι) (k : κ) (a : α) (s t : σ) :
    Prop where
  /-- The lock stays where it is. -/
  held : S.held t=S.held s
  /-- The section goes on in the same way. -/
  same : (S.stmt i k t).2=(S.stmt i k s).2
  /-- The step may as well come after the statement. -/
  step : S.step (S.stmt i k s).1 a=some (S.stmt i k t).1
  /-- It is permitted there if it was. -/
  allowed : ok s a → ok (S.stmt i k s).1 a

/-- Without a restriction every step is allowed. -/
theorem allowed_any (S : System σ α ι κ) (f : Mid σ ι κ) (l : Label α ι) :
    S.allowed anyStep f l := by
  cases l <;> trivial

/-- What makes sections atomic. -/
structure Atomic (S : System σ α ι κ) (ok : σ → α → Prop) (start : σ) : Prop where
  /-- A section is a step of its party. -/
  entry_who : ∀ i,S.who (S.entry i)=some i
  /-- A party that is about to begin a section takes no other step. -/
  entry_only : ∀ {i s r a t},S.enter i s=some r → S.who a=some i → S.step s a=some t →
    a=S.entry i
  /-- A section begins under the lock. -/
  enter_held : ∀ {i s t k},Run S.step ok start s → S.enter i s=some (t,k) →
    S.held s=some i ∧ S.held t=some i
  /-- Its statements together are the step. -/
  enter_step : ∀ {i s t k},S.enter i s=some (t,k) →
    S.step s (S.entry i)=some (S.finish i k t)
  /-- The lock is kept to the last statement. -/
  stmt_held : ∀ {i k s k'},S.held s=some i → (S.stmt i k s).2=some k' →
    S.held (S.stmt i k s).1=some i
  /-- Nobody else begins a section meanwhile. -/
  alone : ∀ {i k s j},Run S.step ok start (S.finish i k s) → S.held s=some i → j≠i →
    S.enter j s=none
  /-- What the others do meanwhile commutes with the next statement. -/
  beside : ∀ {i k s a t},Run S.step ok start (S.finish i k s) → S.held s=some i →
    S.who a≠some i → S.step s a=some t → S.Beside ok i k a s t

/-- A step beside an open section may as well come after the whole of it. -/
theorem Atomic.finish_step (hA : S.Atomic ok start) (hr : Run S.step ok start (S.finish i k s))
    (hh : S.held s=some i) (hw : S.who a≠some i) (hs : S.step s a=some t) :
    S.step (S.finish i k s) a=some (S.finish i k t) ∧ (ok s a → ok (S.finish i k s) a) := by
  -- what the step commutes with next, it finds as it was, and so on to the end
  induction k,s using stmt_induction (S:=S) (i:=i) generalizing t with
  | last k s hk =>
    have hb := hA.beside hr hh hw hs
    rw [finish_last hk,finish_last (hb.same.trans hk)]
    exact ⟨hb.step,hb.allowed⟩
  | next k s k' hk ih =>
    have hb := hA.beside hr hh hw hs
    rw [finish_next hk] at hr
    rw [finish_next hk,finish_next (hb.same.trans hk)]
    have hnext := ih hr (hA.stmt_held hh hk) hb.step
    exact ⟨hnext.1,fun ho => hnext.2 (hb.allowed ho)⟩

/-- What is known between two statements of a run. -/
structure Between (S : System σ α ι κ) (ok : σ → α → Prop) (start : σ) (f : Mid σ ι κ) :
    Prop where
  /-- Who has a section open holds the lock. -/
  exclusive : ∀ i k,f.inside i=some k → S.held f.base=some i
  /-- With its section finished the state is one of a run by sections. -/
  reached : Run S.step ok start (S.whole f)

/-- Either one party has a section open and holds the lock, or none has. -/
theorem Between.open_or (h : S.Between ok start f) :
    (∃ i k,f.inside i=some k ∧ S.held f.base=some i ∧ ∀ j,j≠i → f.inside j=none) ∨
      ∀ i,f.inside i=none := by
  by_cases hc : ∀ i,f.inside i=none
  · exact .inr hc
  · obtain ⟨i,hi⟩ := not_forall.mp hc
    obtain ⟨k,hk⟩ := Option.ne_none_iff_exists'.mp hi
    refine .inl ⟨i,k,hk,h.exclusive i k hk,fun j hj => ?_⟩
    by_contra hn
    obtain ⟨k',hk'⟩ := Option.ne_none_iff_exists'.mp hn
    exact hj (Option.some.inj ((h.exclusive j k' hk').symm.trans (h.exclusive i k hk)))

/-- What one step of the system of statements is to the system of sections. -/
inductive Seen (S : System σ α ι κ) (ok : σ → α → Prop) (o : σ → β) (f : Mid σ ι κ) :
    Label α ι → Mid σ ι κ → Prop
  /-- A step of its own, which shows at least what it shows here. -/
  | act {a : α} {f' : Mid σ ι κ} (hi : f'.inside=f.inside) (hd : S.due f'=S.due f)
    (ho : ok (S.whole f) a) (hs : S.step (S.whole f) a=some (S.whole f'))
    (hm : o f'.base≠o f.base → o (S.whole f')≠o (S.whole f)) : Seen S ok o f (.act a) f'
  /-- A whole section, begun where none was open. -/
  | enter {i : ι} {k : κ} {f' : Mid σ ι κ} (hf : S.due f=0) (hd : S.due f'=S.left k+1)
    (ho : ok (S.whole f) (S.entry i)) (hs : S.step (S.whole f) (S.entry i)=some (S.whole f'))
    (hm : o (S.whole f')≠o (S.whole f)) : Seen S ok o f (.enter i) f'
  /-- Nothing. -/
  | stmt {i : ι} {f' : Mid σ ι κ} (hd : S.due f'<S.due f) (hs : S.whole f'=S.whole f) :
    Seen S ok o f (.stmt i) f'

/-- An observation that a section moves and that an open section hides from
nobody. -/
structure Visible (S : System σ α ι κ) (ok : σ → α → Prop) (start : σ) (o : σ → β) : Prop where
  /-- A section moves it. -/
  entry : ∀ {i s t k},S.enter i s=some (t,k) → o (S.finish i k t)≠o s
  /-- What a step beside an open section moves, it still moves at its end. -/
  beside : ∀ {i k s a t},Run S.step ok start (S.finish i k s) → S.held s=some i →
    S.who a≠some i → S.step s a=some t → o t≠o s → o (S.finish i k t)≠o (S.finish i k s)

variable {o : σ → β} {rank : σ → ℕ} {c : ℕ}

/-- A state in which nobody has a section open is given by its base. -/
theorem outside_of_closed (h : ∀ i,f.inside i=none) : f=.outside f.base := by
  cases f with
  | mk base inside =>
    cases (funext h : inside=fun _ => none)
    rfl

/-- A step that is not part of a section is a step of the system of sections,
whether a section is open beside it or not. -/
theorem Between.act (h : S.Between ok start f) (hA : S.Atomic ok start)
    (hv : S.Visible ok start o) (ho : ok f.base a)
    (hi : ∀ i,S.who a=some i → f.inside i=none ∧ S.enter i f.base=none)
    (hs : S.step f.base a=some t) :
    S.Between ok start {f with base := t} ∧ S.Seen ok o f (.act a) {f with base := t} := by
  have hr := h.reached
  rcases h.open_or with ⟨i,k,hk,hh,_⟩|hc
  · have hw : S.who a≠some i := fun hw => by
      rw [(hi i hw).1] at hk
      cases hk
    obtain ⟨he,hd⟩ := whole_open hh hk
    rw [he] at hr
    have hb := hA.beside hr hh hw hs
    obtain ⟨hstep,hok⟩ := hA.finish_step hr hh hw hs
    obtain ⟨he',hd'⟩ := whole_open (f:={f with base := t}) (hb.held.trans hh) hk
    refine ⟨⟨fun j k' hj => hb.held.trans (h.exclusive j k' hj),?_⟩,
      .act rfl (hd'.trans hd.symm) ?_ ?_ fun hm => ?_⟩
    · rw [he']
      exact .tail hr (hok ho) hstep
    · rw [he]
      exact hok ho
    · rw [he,he']
      exact hstep
    · rw [he,he']
      exact hv.beside hr hh hw hs hm
  · obtain ⟨he,hd⟩ := whole_closed (S:=S) hc
    obtain ⟨he',hd'⟩ := whole_closed (S:=S) (f:={f with base := t}) hc
    rw [he] at hr
    refine ⟨⟨fun j k hj => ?_,?_⟩,.act rfl (hd'.trans hd.symm) ?_ ?_ fun hm => ?_⟩
    · cases (hc j).symm.trans hj
    · rw [he']
      exact .tail hr ho hs
    · rw [he]
      exact ho
    · rw [he,he']
      exact hs
    · rw [he,he']
      exact hm

/-- A party begins a section where none is open. -/
theorem Between.closed (h : S.Between ok start f) (hA : S.Atomic ok start)
    (hi : f.inside i=none) {r : σ×κ} (he : S.enter i f.base=some r) : ∀ j,f.inside j=none := by
  rcases h.open_or with ⟨j,k,hk,hh,_⟩|hc
  · have hij : i≠j := fun hij => by
      rw [hij,hk] at hi
      cases hi
    have hr := h.reached
    rw [(whole_open hh hk).1] at hr
    rw [hA.alone hr hh hij] at he
    cases he
  · exact hc

variable [DecidableEq ι]

/-- One step of the system of statements. -/
def fine (S : System σ α ι κ) (f : Mid σ ι κ) : Label α ι → Option (Mid σ ι κ)
  | .act a =>
    if S.free f a=true then (S.step f.base a).map fun t => {f with base := t} else none
  | .enter i =>
    if f.inside i=none then
      (S.enter i f.base).map fun r => f.after i (r.1,some r.2)
    else none
  | .stmt i => (f.inside i).map fun k => f.after i (S.stmt i k f.base)

/-- The outcomes of one step of the system of statements. -/
inductive Fine (S : System σ α ι κ) (f : Mid σ ι κ) : Label α ι → Mid σ ι κ → Prop
  /-- A step that is not part of a section. -/
  | act {a : α} {t : σ} (hi : ∀ i,S.who a=some i → f.inside i=none ∧ S.enter i f.base=none)
    (hs : S.step f.base a=some t) : Fine S f (.act a) {f with base := t}
  /-- The first statement of a section. -/
  | enter {i : ι} {t : σ} {k : κ} (hi : f.inside i=none) (he : S.enter i f.base=some (t,k)) :
    Fine S f (.enter i) (f.after i (t,some k))
  /-- The next statement of a section. -/
  | stmt {i : ι} {k : κ} (hi : f.inside i=some k) :
    Fine S f (.stmt i) (f.after i (S.stmt i k f.base))

/-- The executable system does what the relation says. -/
theorem fine_iff : S.fine f l=some f' ↔ S.Fine f l f' := by
  constructor
  · intro h
    cases l with
    | act a =>
      unfold fine at h
      dsimp only at h
      split at h
      · next hf =>
        obtain ⟨t,hs,rfl⟩ := Option.map_eq_some_iff.mp h
        exact .act (free_iff.mp hf) hs
      · cases h
    | enter i =>
      unfold fine at h
      dsimp only at h
      split at h
      · next hi =>
        obtain ⟨⟨t,k⟩,he,rfl⟩ := Option.map_eq_some_iff.mp h
        exact .enter hi he
      · cases h
    | stmt i =>
      obtain ⟨k,hk,rfl⟩ := Option.map_eq_some_iff.mp h
      exact .stmt hk
  · intro h
    cases h with
    | act hi hs => simp [fine,free_iff.mpr hi,hs]
    | enter hi he => simp [fine,hi,he]
    | stmt hi => simp [fine,hi]

/-- After a statement of the only party that may have a section open the state
stands for the end of what is left. -/
theorem whole_after {r : σ×Option κ} (hc : ∀ j,j≠i → f.inside j=none)
    (hh : ∀ k,r.2=some k → S.held r.1=some i) :
    S.whole (f.after i r)=S.rest i r ∧
      S.due (f.after i r)=(match r.2 with | none => 0 | some k => S.left k+1) ∧
      ∀ j k,(f.after i r).inside j=some k → S.held (f.after i r).base=some j := by
  have hother : ∀ j k,j≠i → (f.after i r).inside j≠some k := fun j k hj hk => by
    rw [f.after_other hj,hc j hj] at hk
    cases hk
  have hex : ∀ j k,(f.after i r).inside j=some k → S.held (f.after i r).base=some j :=
    fun j k hk => by
      by_cases hj : j=i
      · rw [hj,f.after_self] at hk
        rw [hj]
        exact hh k hk
      · exact absurd hk (hother j k hj)
  unfold rest
  cases hr : r.2 with
  | none =>
    have hall : ∀ j,(f.after i r).inside j=none := fun j => by
      by_cases hj : j=i
      · rw [hj,f.after_self,hr]
      · rw [f.after_other hj,hc j hj]
    exact ⟨(whole_closed hall).1,(whole_closed hall).2,hex⟩
  | some k =>
    have hopen := whole_open (S:=S) (f:=f.after i r) (hh k hr) (by rw [f.after_self,hr])
    exact ⟨hopen.1,hopen.2,hex⟩

/-- The first statement of a section is the step that the section is. -/
theorem Between.enter (h : S.Between ok start f) (hA : S.Atomic ok start)
    (hv : S.Visible ok start o) (ho : ok f.base (S.entry i)) (hi : f.inside i=none)
    (he : S.enter i f.base=some (t,k)) :
    S.Between ok start (f.after i (t,some k)) ∧
      S.Seen ok o f (.enter i) (f.after i (t,some k)) := by
  have hc := h.closed hA hi he
  obtain ⟨hw,hd⟩ := whole_closed (S:=S) hc
  have hr := h.reached
  rw [hw] at hr
  have hheld := hA.enter_held hr he
  obtain ⟨hw',hd',hex⟩ := whole_after (S:=S) (f:=f) (i:=i) (r:=(t,some k)) (fun j _ => hc j)
    (fun _ _ => hheld.2)
  have hstep := hA.enter_step he
  refine ⟨⟨hex,?_⟩,.enter hd hd' ?_ ?_ ?_⟩
  · rw [hw']
    exact .tail hr ho hstep
  · rw [hw]
    exact ho
  · rw [hw,hw']
    exact hstep
  · rw [hw,hw']
    exact hv.entry he

/-- The next statement of a section is nothing to the system of sections. -/
theorem Between.stmt (h : S.Between ok start f) (hA : S.Atomic ok start)
    (hk : f.inside i=some k) :
    S.Between ok start (f.after i (S.stmt i k f.base)) ∧
      S.Seen ok o f (.stmt i) (f.after i (S.stmt i k f.base)) := by
  have hh := h.exclusive i k hk
  have hother : ∀ j,j≠i → f.inside j=none := by
    rcases h.open_or with ⟨i',_,_,hh',ho⟩|hc
    · cases hh.symm.trans hh'
      exact ho
    · exact fun j _ => hc j
  obtain ⟨hw,hd⟩ := whole_open hh hk
  obtain ⟨hw',hd',hex⟩ := whole_after (r:=S.stmt i k f.base) hother
    (fun _ hn => hA.stmt_held hh hn)
  have heq : S.whole (f.after i (S.stmt i k f.base))=S.whole f := by
    rw [hw,hw',finish_eq]
  refine ⟨⟨hex,?_⟩,.stmt ?_ heq⟩
  · rw [heq]
    exact h.reached
  · rw [hd,hd']
    cases hn : (S.stmt i k f.base).2 with
    | none => exact Nat.succ_pos _
    | some k' => exact Nat.succ_lt_succ (S.left_lt i k _ k' hn)

/-- One step of the system of statements, as the system of sections sees it. -/
theorem Between.step (h : S.Between ok start f) (hA : S.Atomic ok start)
    (hv : S.Visible ok start o) (ho : S.allowed ok f l) (hf : S.fine f l=some f') :
    S.Between ok start f' ∧ S.Seen ok o f l f' := by
  cases fine_iff.mp hf with
  | act hi hs => exact h.act hA hv ho hi hs
  | enter hi he => exact h.enter hA hv ho hi he
  | stmt hk => exact h.stmt hA hk

/-- Every run by statements excludes a second open section and, with the open
one finished, is a run by sections. -/
theorem Between.run (hA : S.Atomic ok start) (hv : S.Visible ok start o)
    (h : Run S.fine (S.allowed ok) (.outside start) f) : S.Between ok start f := by
  have h0 : S.Between ok start (.outside start) := by
    refine ⟨fun i k hi => absurd hi (Option.some_ne_none k).symm,?_⟩
    rw [(whole_closed fun _ => rfl).1]
    exact .refl
  exact h.invariant h0 fun _ _ _ hi ho hs => (hi.step hA hv ho hs).1

/-- An open section can be finished without the others taking a step. -/
theorem Between.finishes (h : S.Between ok start f) (hA : S.Atomic ok start) :
    Run S.fine (S.allowed ok) f (.outside (S.whole f)) := by
  -- by induction on the number of statements that are due
  induction hn : S.due f using Nat.strong_induction_on generalizing f with
  | _ n ih =>
    subst hn
    rcases h.open_or with ⟨i,k,hk,_,_⟩|hc
    · obtain ⟨hb,hseen⟩ := h.stmt (o:=id) hA hk
      have hstep : S.fine f (.stmt i)=some (f.after i (S.stmt i k f.base)) :=
        fine_iff.mpr (.stmt hk)
      cases hseen with
      | stmt hd hw =>
        rw [←hw]
        exact .head (a:=.stmt i) trivial hstep (ih _ hd hb rfl)
    · have he := outside_of_closed hc
      rw [(whole_closed hc).1,←he]
      exact .refl

/-- Every run by sections can be made statement by statement. -/
theorem Atomic.mirrored (hA : S.Atomic ok start) (hv : S.Visible ok start o)
    (h : Run S.step ok start s) :
    Run S.fine (S.allowed ok) (.outside start) (.outside s) := by
  induction h with
  | refl => exact .refl
  | @tail s t a hrun ho hs ih =>
    refine ih.trans ?_
    by_cases hf : S.free (.outside s) a=true
    · exact Run.single (a:=.act a) ho (fine_iff.mpr (.act (free_iff.mp hf) hs))
    · -- the step is a section: its first statement, and then the others
      rw [free_iff] at hf
      push Not at hf
      obtain ⟨i,hw,hi⟩ := hf
      obtain ⟨⟨u,k⟩,he⟩ := Option.ne_none_iff_exists'.mp (hi rfl)
      cases hA.entry_only he hw hs
      cases hs.symm.trans (hA.enter_step he)
      have hb : S.Between ok start (.outside s) := Between.run hA hv ih
      obtain ⟨hnext,hseen⟩ := hb.enter hA hv ho rfl he
      have hheld := hA.enter_held hrun he
      have hwhole := (whole_open (f:=(Mid.outside s).after i (u,some k)) hheld.2
        (Mid.after_self _ _ _)).1
      have hfin := hnext.finishes hA
      rw [hwhole] at hfin
      exact .head (a:=.enter i) ho (fine_iff.mpr (.enter rfl he)) hfin

/-- Runs by statements that leave no section open and runs by sections reach
the same states. -/
theorem Atomic.run_iff (hA : S.Atomic ok start) (hv : S.Visible ok start o) :
    Run S.fine (S.allowed ok) (.outside start) (.outside s) ↔ Run S.step ok start s := by
  refine ⟨fun h => ?_,hA.mirrored hv⟩
  have hr := (Between.run hA hv h).reached
  rwa [(whole_closed fun _ => rfl).1] at hr

/-- What an observer sees between two statements. -/
def shown (o : σ → β) (f : Mid σ ι κ) : β×(ι → Option κ) := (o f.base,f.inside)

/-- A rank of the runs by sections, with the statements due added, ranks the
runs by statements: the step that a section is pays for its statements. -/
theorem Atomic.ranked (hA : S.Atomic ok start) (hv : S.Visible ok start o)
    (hr : Ranked S.step ok o start rank) (hc : ∀ k,S.left k<c) :
    Ranked S.fine (S.allowed ok) (shown o) (.outside start)
      fun f => (c+1)*rank (S.whole f)+S.due f := by
  have hpay : ∀ {x y d : ℕ},x<y → d≤c → (c+1)*x+d<(c+1)*y := fun {x y d} hxy hd =>
    calc (c+1)*x+d<(c+1)*x+(c+1) := Nat.add_lt_add_left (Nat.lt_succ_of_le hd) _
      _=(c+1)*(x+1) := (Nat.mul_succ _ _).symm
      _≤(c+1)*y := Nat.mul_le_mul_left _ hxy
  have hstep : ∀ f l f',Run S.fine (S.allowed ok) (.outside start) f → S.allowed ok f l →
      S.fine f l=some f' →
      (c+1)*rank (S.whole f')+S.due f'≤(c+1)*rank (S.whole f)+S.due f ∧
      (shown o f'≠shown o f →
        (c+1)*rank (S.whole f')+S.due f'<(c+1)*rank (S.whole f)+S.due f) := by
    intro f l f' hrun ho hs
    have hb := Between.run hA hv hrun
    cases (hb.step hA hv ho hs).2 with
    | act hi hd hok hstep hm =>
      rw [hd]
      refine ⟨Nat.add_le_add_right (Nat.mul_le_mul_left _ (hr.le _ _ _ hb.reached hok hstep)) _,
        fun hne => Nat.add_lt_add_right (Nat.mul_lt_mul_of_pos_left ?_ (Nat.succ_pos c)) _⟩
      exact hr.lt _ _ _ hb.reached hok hstep (hm fun he => hne (Prod.ext he hi))
    | @enter i k _ hf hd hok hstep hm =>
      rw [hf,hd]
      have hlt := hpay (hr.lt _ _ _ hb.reached hok hstep hm) (Nat.succ_le_of_lt (hc k))
      exact ⟨hlt.le,fun _ => hlt⟩
    | stmt hd hw =>
      rw [hw]
      have hlt := Nat.add_lt_add_left hd ((c+1)*rank (S.whole f))
      exact ⟨hlt.le,fun _ => hlt⟩
  exact ⟨fun f l f' hrun ho hs => (hstep f l f' hrun ho hs).1,
    fun f l f' hrun ho hs hm => (hstep f l f' hrun ho hs).2 hm⟩

/-- Where a section is open, or the system of sections can go on, the system of
statements can. -/
theorem Between.goes_on (h : S.Between ok start f) (hA : S.Atomic ok start)
    (hc : (∀ i,f.inside i=none) → ∃ a t,ok f.base a ∧ S.step f.base a=some t ∧ o t≠o f.base) :
    ∃ l f',S.allowed ok f l ∧ S.fine f l=some f' ∧ shown o f'≠shown o f := by
  rcases h.open_or with ⟨i,k,hk,_,_⟩|hcl
  · refine ⟨.stmt i,f.after i (S.stmt i k f.base),trivial,fine_iff.mpr (.stmt hk),fun he => ?_⟩
    have hi : (f.after i (S.stmt i k f.base)).inside i=f.inside i :=
      congrFun (congrArg Prod.snd he) i
    rw [f.after_self,hk] at hi
    exact absurd (S.left_lt i k _ k hi) (lt_irrefl _)
  · obtain ⟨a,t,ho,hs,hm⟩ := hc hcl
    by_cases hf : S.free f a=true
    · exact ⟨.act a,_,ho,fine_iff.mpr (.act (free_iff.mp hf) hs),
        fun he => hm (congrArg Prod.fst he)⟩
    · rw [free_iff] at hf
      push Not at hf
      obtain ⟨i,hw,hi⟩ := hf
      obtain ⟨⟨u,k⟩,he⟩ := Option.ne_none_iff_exists'.mp (hi (hcl i))
      cases hA.entry_only he hw hs
      refine ⟨.enter i,f.after i (u,some k),ho,fine_iff.mpr (.enter (hcl i) he),fun heq => ?_⟩
      have hin : (f.after i (u,some k)).inside i=f.inside i := congrFun (congrArg Prod.snd heq) i
      rw [f.after_self,hcl i] at hin
      cases hin

end System

end Yancat.Sections
