import Mathlib.Logic.Relation
import Mathlib.Tactic

/-!
# Runs of executable transition systems

A system is a partial step function from a state and a label to the next
state. Runs may be restricted by a predicate on every taken step, which is
how an environment assumption enters: it is checked where the step is taken
and never on the outcome. The invariant rules at the end are the only
inductions over runs; a system proves what one step preserves.
-/

namespace Yancat.Transition

variable {σ α : Type*}

/-- States reached from a start state by steps that all satisfy `ok`. -/
inductive Run (step : σ → α → Option σ) (ok : σ → α → Prop) (start : σ) : σ → Prop
  /-- The start state itself. -/
  | refl : Run step ok start start
  /-- One more permitted step. -/
  | tail {s t : σ} {a : α} :
    Run step ok start s → ok s a → step s a=some t → Run step ok start t

/-- The absence of any restriction on the steps of a run. -/
def anyStep (_ : σ) (_ : α) : Prop := True

/-- Reachability by arbitrary steps. -/
abbrev Reach (step : σ → α → Option σ) (start : σ) : σ → Prop := Run step anyStep start

variable {step : σ → α → Option σ} {ok : σ → α → Prop} {start s t : σ}

/-- Runs under a stronger restriction are runs under a weaker one. -/
theorem Run.mono {ok' : σ → α → Prop} (h : Run step ok start s)
    (hw : ∀ s a,ok s a → ok' s a) : Run step ok' start s := by
  induction h with
  | refl => exact .refl
  | tail _ ha hs ih => exact .tail ih (hw _ _ ha) hs

/-- Forgetting the restriction leaves plain reachability. -/
theorem Run.reach (h : Run step ok start s) : Reach step start s :=
  h.mono fun _ _ _ => trivial

/-- Runs compose. -/
theorem Run.trans (h : Run step ok start s) (h' : Run step ok s t) : Run step ok start t := by
  induction h' with
  | refl => exact h
  | tail _ ha hs ih => exact .tail ih ha hs

/-- A single permitted step is a run. -/
theorem Run.single {a : α} (ha : ok s a) (hs : step s a=some t) : Run step ok s t :=
  .tail .refl ha hs

/-- A permitted step followed by a run is a run. -/
theorem Run.head {u : σ} {a : α} (ha : ok s a) (hs : step s a=some t) (h : Run step ok t u) :
    Run step ok s u := (Run.single ha hs).trans h

/-- What holds at the start and is preserved by every permitted step
holds in every state of the run. -/
theorem Run.invariant {I : σ → Prop} (h : Run step ok start s) (h0 : I start)
    (hstep : ∀ s a t,I s → ok s a → step s a=some t → I t) : I s := by
  induction h with
  | refl => exact h0
  | tail _ ha hs ih => exact hstep _ _ _ ih ha hs

/-- The invariant rule relative to a fact `J` already known of every state
of the run. It lets one invariant be proved on top of another. -/
theorem Run.invariant_of {I J : σ → Prop} (h : Run step ok start s)
    (hJ : ∀ s,Run step ok start s → J s) (h0 : I start)
    (hstep : ∀ s a t,J s → J t → I s → ok s a → step s a=some t → I t) : I s := by
  induction h with
  | refl => exact h0
  | tail hr ha hs ih => exact hstep _ _ _ (hJ _ hr) (hJ _ (.tail hr ha hs)) ih ha hs

/-- A run of a system whose steps are steps of another one, or invisible to it,
is seen as a run of that one. -/
theorem Run.project {σ' α' : Type*} {step' : σ' → α' → Option σ'} {ok' : σ' → α' → Prop}
    {start' s' : σ'} (f : σ' → σ) (h : Run step' ok' start' s')
    (hstep : ∀ s a t,step' s a=some t → f t=f s ∨ ∃ b,step (f s) b=some (f t)) :
    Reach step (f start') (f s') := by
  induction h with
  | refl => exact .refl
  | tail _ _ hs ih =>
    rcases hstep _ _ _ hs with he|⟨b,hb⟩
    · rw [he]
      exact ih
    · exact .tail ih trivial hb

/-- Execute a literal list of labels. -/
def exec (step : σ → α → Option σ) : σ → List α → Option σ
  | s,[] => some s
  | s,a::as => (step s a).bind fun t => exec step t as

/-- Every successful execution is a run. -/
theorem exec_run {as : List α} (h : exec step s as=some t) : Reach step s t := by
  induction as generalizing s with
  | nil =>
    cases h
    exact .refl
  | cons a as ih =>
    obtain ⟨u,hu,hr⟩ := Option.bind_eq_some_iff.mp h
    exact (Run.single trivial hu).trans (ih hr)

/-- A successful execution whose last state is observed reaches such a state. -/
theorem exec_reach {β : Type*} {f : σ → β} {as : List α} {b : β}
    (h : (exec step s as).map f=some b) : ∃ t,Reach step s t ∧ f t=b := by
  obtain ⟨t,ht,hf⟩ := Option.map_eq_some_iff.mp h
  exact ⟨t,exec_run ht,hf⟩

/-- Execute a literal list of labels while checking the restriction. -/
def execOk (step : σ → α → Option σ) (ok : σ → α → Prop) [∀ s a,Decidable (ok s a)] :
    σ → List α → Option σ
  | s,[] => some s
  | s,a::as => if ok s a then (step s a).bind fun t => execOk step ok t as else none

/-- A checked execution is a run under the restriction. -/
theorem execOk_run [∀ s a,Decidable (ok s a)] {as : List α} (h : execOk step ok s as=some t) :
    Run step ok s t := by
  induction as generalizing s with
  | nil =>
    cases h
    exact .refl
  | cons a as ih =>
    by_cases ha : ok s a
    · rw [execOk,if_pos ha] at h
      obtain ⟨u,hu,hr⟩ := Option.bind_eq_some_iff.mp h
      exact (Run.single ha hu).trans (ih hr)
    · rw [execOk,if_neg ha] at h
      cases h

/-- A checked execution whose last state is observed reaches such a state. -/
theorem execOk_reach [∀ s a,Decidable (ok s a)] {β : Type*} {f : σ → β} {as : List α} {b : β}
    (h : (execOk step ok s as).map f=some b) : ∃ t,Run step ok s t ∧ f t=b := by
  obtain ⟨t,ht,hf⟩ := Option.map_eq_some_iff.mp h
  exact ⟨t,execOk_run ht,hf⟩

/-- Runs with the list of what their steps show. -/
inductive Observed {ε : Type*} (step : σ → α → Option σ) (shown : σ → α → List ε) (start : σ) :
    List ε → σ → Prop
  /-- Nothing was shown. -/
  | refl : Observed step shown start [] start
  /-- One more step. -/
  | tail {log : List ε} {s t : σ} {a : α} : Observed step shown start log s → step s a=some t →
    Observed step shown start (log++shown s a) t

/-- Forgetting what was shown leaves plain reachability. -/
theorem Observed.reach {ε : Type*} {shown : σ → α → List ε} {log : List ε}
    (h : Observed step shown start log s) : Reach step start s := by
  induction h with
  | refl => exact .refl
  | tail _ hs ih => exact .tail ih trivial hs

/-- Runs that count the steps which move what `f` observes. -/
inductive CountedRun {β : Type*} (step : σ → α → Option σ) (ok : σ → α → Prop) (f : σ → β)
    (start : σ) : ℕ → σ → Prop
  /-- Nothing was moved. -/
  | refl : CountedRun step ok f start 0 start
  /-- One more step that moves. -/
  | moved {n : ℕ} {s t : σ} {a : α} : CountedRun step ok f start n s → ok s a →
    step s a=some t → f t≠f s → CountedRun step ok f start (n+1) t
  /-- One more step that does not. -/
  | still {n : ℕ} {s t : σ} {a : α} : CountedRun step ok f start n s → ok s a →
    step s a=some t → f t=f s → CountedRun step ok f start n t

/-- A rank that no permitted step raises and every moving step lowers. -/
structure Ranked {β : Type*} (step : σ → α → Option σ) (ok : σ → α → Prop) (f : σ → β)
    (start : σ) (rank : σ → ℕ) : Prop where
  /-- No step raises the rank. -/
  le : ∀ s a t,Run step ok start s → ok s a → step s a=some t → rank t≤rank s
  /-- A moving step lowers it. -/
  lt : ∀ s a t,Run step ok start s → ok s a → step s a=some t → f t≠f s → rank t<rank s

variable {β : Type*} {f : σ → β} {rank : σ → ℕ} {n : ℕ}

/-- Forgetting the count leaves a run. -/
theorem CountedRun.run (h : CountedRun step ok f start n s) : Run step ok start s := by
  induction h with
  | refl => exact .refl
  | moved _ ha hs _ ih => exact .tail ih ha hs
  | still _ ha hs _ ih => exact .tail ih ha hs

/-- The rank of the start bounds the number of moves. -/
theorem CountedRun.bounded (h : CountedRun step ok f start n s)
    (hr : Ranked step ok f start rank) : n+rank s≤rank start := by
  induction h with
  | refl => exact (Nat.zero_add _).le
  | moved hrun ha hs hm ih =>
    have hlt := hr.lt _ _ _ hrun.run ha hs hm
    omega
  | still hrun ha hs _ ih =>
    have hle := hr.le _ _ _ hrun.run ha hs
    omega

/-- An infinite run, as the sequence of its states. -/
def Endless (step : σ → α → Option σ) (ok : σ → α → Prop) (start : σ) (g : ℕ → σ) : Prop :=
  g 0=start ∧ ∀ i,∃ a,ok (g i) a ∧ step (g i) a=some (g (i+1))

/-- Every state of an infinite run is reached. -/
theorem Endless.run {g : ℕ → σ} (h : Endless step ok start g) (i : ℕ) :
    Run step ok start (g i) := by
  induction i with
  | zero =>
    rw [h.1]
    exact .refl
  | succ i ih =>
    obtain ⟨a,ha,hs⟩ := h.2 i
    exact .tail ih ha hs

/-- An infinite run that keeps moving until a goal reaches the goal. -/
theorem Endless.reaches {g : ℕ → σ} {P : σ → Prop} (h : Endless step ok start g)
    (hr : Ranked step ok f start rank)
    (hfair : ∀ i,¬P (g i) → ∃ j≥i,f (g (j+1))≠f (g j)) : ∃ i,P (g i) := by
  by_contra hn
  rw [not_exists] at hn
  -- every move costs a unit of rank, and there is always another one to come
  have hle : ∀ i j,i≤j → rank (g j)≤rank (g i) := by
    intro i j hij
    induction j,hij using Nat.le_induction with
    | base => exact le_refl _
    | succ j _ ih =>
      obtain ⟨a,ha,hs⟩ := h.2 j
      exact (hr.le _ _ _ (h.run j) ha hs).trans ih
  have hdrop : ∀ k,∃ i,rank (g i)+k≤rank (g 0) := by
    intro k
    induction k with
    | zero => exact ⟨0,le_refl _⟩
    | succ k ih =>
      obtain ⟨i,hi⟩ := ih
      obtain ⟨j,hij,hm⟩ := hfair i (hn i)
      obtain ⟨a,ha,hs⟩ := h.2 j
      have hlt := hr.lt _ _ _ (h.run j) ha hs hm
      have hmono := hle i j hij
      exact ⟨j+1,by omega⟩
  obtain ⟨i,hi⟩ := hdrop (rank (g 0)+1)
  omega

/-- A rank serves a stronger restriction as well. -/
theorem Ranked.mono {ok' : σ → α → Prop} (hr : Ranked step ok' f start rank)
    (hw : ∀ s a,ok s a → ok' s a) : Ranked step ok f start rank :=
  ⟨fun s a t h ha hs => hr.le s a t (h.mono hw) (hw s a ha) hs,
    fun s a t h ha hs hm => hr.lt s a t (h.mono hw) (hw s a ha) hs hm⟩

/-- The runs come to an end at a goal, whoever schedules them. -/
structure Ends {β : Type*} (step : σ → α → Option σ) (ok : σ → α → Prop) (f : σ → β)
    (start : σ) (P : σ → Prop) : Prop where
  /-- The number of moves is bounded. -/
  bounded : ∃ bound,∀ n s,CountedRun step ok f start n s → n≤bound
  /-- Short of the goal a permitted step moves. -/
  moves : ∀ s,Run step ok start s → ¬P s → ∃ a t,ok s a ∧ step s a=some t ∧ f t≠f s
  /-- Every run can be continued to the goal. -/
  completes : ∀ s,Run step ok start s → ∃ t,Run step ok s t ∧ P t
  /-- A run that never rests short of the goal reaches it. -/
  reaches : ∀ g,Endless step ok start g → (∀ i,¬P (g i) → ∃ j≥i,f (g (j+1))≠f (g j)) → ∃ i,P (g i)

/-- Ranked runs that can move until a goal come to an end there. -/
theorem Ranked.ends {P : σ → Prop} (hr : Ranked step ok f start rank)
    (hmove : ∀ s,Run step ok start s → ¬P s → ∃ a t,ok s a ∧ step s a=some t ∧ f t≠f s) :
    Ends step ok f start P := by
  refine ⟨⟨rank start,fun n s h => (Nat.le_add_right n _).trans (h.bounded hr)⟩,hmove,fun s h => ?_,
    fun g hg hfair => hg.reaches hr hfair⟩
  induction hk : rank s using Nat.strong_induction_on generalizing s with
  | _ k ih =>
    by_cases hp : P s
    · exact ⟨s,.refl,hp⟩
    · obtain ⟨a,t,ha,hs,hm⟩ := hmove s h hp
      have hlt := hr.lt s a t h ha hs hm
      obtain ⟨u,hu,hpu⟩ := ih (rank t) (hk ▸ hlt) t (h.tail ha hs) rfl
      exact ⟨u,.head ha hs hu,hpu⟩

end Yancat.Transition
