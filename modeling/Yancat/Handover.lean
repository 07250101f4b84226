import Mathlib.Logic.Relation
import Mathlib.Tactic

/-!
# One side of a hand-over

A party that finds nothing to do raises a flag and waits on a counting
semaphore. Its partner, finding work for it, lowers the flag, stores a value
in a slot and posts; a third event, `done`, ends all waits and may come with
posts of its own. The invariant says that as long as `done` is not set there
is at most one post, that it answers the current wait, and that the slot then
holds the value stored for that wait.
-/

namespace Yancat.Handover

variable {α : Type*}

/-- Waits, stored values and uses of one side, in order. -/
inductive Event (α : Type*)
  /-- The party announced a wait. -/
  | wait
  /-- The partner stored a value. -/
  | grant (x : α)
  /-- The party used a value from the slot. -/
  | use (x : α)
  deriving DecidableEq

/-- Position of the party. -/
inductive Pos
  /-- Working, or about to look for work. -/
  | away
  /-- At the semaphore. -/
  | waiting
  /-- Past the semaphore, at the test of `done`. -/
  | woken
  /-- About to use the slot. -/
  | using
  /-- Out of the loop. -/
  | left
  deriving DecidableEq

/-- One side. -/
structure Side (α : Type*) where
  /-- Position of the party. -/
  pos : Pos
  /-- A wait was announced and not answered. -/
  flag : Bool
  /-- Count of the semaphore. -/
  tokens : ℕ
  /-- The partner has stored a value and not posted yet. -/
  posting : Bool
  /-- The partner has posted for the last time. -/
  retired : Bool
  /-- No wait may begin any more. -/
  done : Bool
  /-- The slot. -/
  slot : α
  /-- What happened so far. -/
  log : List (Event α)

/-- The steps of one side. -/
inductive Step : Side α → Side α → Prop
  /-- The party announces a wait. -/
  | announce {s : Side α} (hp : s.pos=.away) (hd : s.done=false) :
    Step s {s with pos := .waiting,flag := true,log := s.log++[.wait]}
  /-- The partner answers with a value. -/
  | grant {s : Side α} (x : α) (hf : s.flag=true) (hn : s.posting=false) :
    Step s {s with flag := false,posting := true,slot := x,log := s.log++[.grant x]}
  /-- The partner posts its answer. -/
  | post {s : Side α} (hn : s.posting=true) :
    Step s {s with posting := false,tokens := s.tokens+1}
  /-- The wait takes a post. -/
  | wake {s : Side α} (hp : s.pos=.waiting) (ht : 0<s.tokens) :
    Step s {s with pos := .woken,tokens := s.tokens-1}
  /-- The party finds that it goes on. -/
  | resume {s : Side α} (hp : s.pos=.woken) (hd : s.done=false) : Step s {s with pos := .using}
  /-- The party uses the slot. -/
  | use {s : Side α} (hp : s.pos=.using) :
    Step s {s with pos := .away,log := s.log++[.use s.slot]}
  /-- The party leaves its loop. -/
  | leave {s : Side α} (hp : s.pos=.away ∨ s.pos=.woken ∧ s.done=true) :
    Step s {s with pos := .left}
  /-- `done` is set, or someone posts after it was. -/
  | outside {s : Side α} {done : Bool} {tokens : ℕ} (hd : s.done=true → done=true)
    (ht : s.tokens≤tokens) (hs : s.done=true ∨ tokens=s.tokens) :
    Step s {s with done := done,tokens := tokens}
  /-- The partner posts for the last time. -/
  | retire {s : Side α} (hd : s.done=true) :
    Step s {s with retired := true,tokens := s.tokens+1}

/-- Every use in a log comes right after a value stored for it, which comes
right after the wait it answers. -/
def UsedOnce (log : List (Event α)) : Prop :=
  ∀ pre x post,log=pre++.use x::post → ∃ pre',pre=pre'++[.wait,.grant x]

/-- The invariant of one side. -/
structure Inv (s : Side α) : Prop where
  /-- Before `done` a raised flag means a wait. -/
  flag : s.flag=true → s.pos=.waiting ∨ s.done=true
  /-- While the party works, its flag is down. -/
  away : s.pos=.away ∨ s.pos=.using → s.flag=false
  /-- An answered wait has its post, or will have it. -/
  answered : s.pos=.waiting → s.flag=false → 0<s.tokens ∨ s.posting=true
  /-- A partner retires only after `done`. -/
  retired : s.retired=true → s.done=true
  /-- A retired partner has left a post for a waiting party. -/
  last : s.pos=.waiting → s.retired=true → 0<s.tokens
  /-- Before `done` there is at most one post. -/
  one : s.done=false → s.tokens≤1
  /-- Before `done` a post answers the current wait. -/
  token : s.done=false → 0<s.tokens → s.pos=.waiting ∧ s.flag=false ∧ s.posting=false
  /-- Before `done` an answer about to be posted is for the current wait. -/
  posting : s.done=false → s.posting=true → s.pos=.waiting ∧ s.flag=false
  /-- An unanswered wait is the last event. -/
  unanswered : s.pos=.waiting ∨ s.pos=.woken → s.flag=true → ∃ pre,s.log=pre++[.wait]
  /-- An answered wait is followed by its one stored value. -/
  fresh : (s.pos=.waiting ∨ s.pos=.woken) ∧ s.flag=false ∨ s.pos=.using →
    ∃ pre,s.log=pre++[.wait,.grant s.slot]
  /-- Every use follows a value stored for its own wait. -/
  used : UsedOnce s.log

/-- Appending anything but a use keeps the uses in place. -/
theorem UsedOnce.snoc {log : List (Event α)} {e : Event α} (h : UsedOnce log)
    (he : ∀ x,e=.use x → ∃ pre,log=pre++[.wait,.grant x]) : UsedOnce (log++[e]) := by
  intro pre x post hl
  rcases List.eq_nil_or_concat post with rfl|⟨post,f,rfl⟩
  · obtain ⟨hlog,hlast⟩ := List.append_inj' hl rfl
    cases hlast
    rw [←hlog]
    exact he x rfl
  · rw [List.concat_eq_append,←List.cons_append,←List.append_assoc] at hl
    obtain ⟨hlog,_⟩ := List.append_inj' hl rfl
    exact h pre x post hlog

variable {s t : Side α}

/-- Announcing a wait keeps the invariant: a post or an answer on its way would
belong to an earlier wait, and there is none. -/
theorem Inv.announce (h : Inv s) (hp : s.pos=.away) (hd : s.done=false) :
    Inv {s with pos := .waiting,flag := true,log := s.log++[.wait]} := by
  obtain ⟨hflag,haway,hans,hret,hlast,hone,htok,hpost,hopen,hfresh,hused⟩ := h
  have hnone : s.tokens=0 ∧ s.posting=false ∧ s.retired=false := by grind
  have hlog : UsedOnce (s.log++[.wait]) := hused.snoc nofun
  constructor <;> grind

/-- Storing an answer keeps the invariant: the wait it answers is the last
event. -/
theorem Inv.grant (h : Inv s) (x : α) (hf : s.flag=true) :
    Inv {s with flag := false,posting := true,slot := x,log := s.log++[.grant x]} := by
  obtain ⟨hflag,haway,hans,hret,hlast,hone,htok,hpost,hopen,hfresh,hused⟩ := h
  have hlog : s.pos=.waiting ∨ s.pos=.woken →
      ∃ pre,s.log++[.grant x]=pre++[.wait,.grant x] := by
    intro hp
    obtain ⟨pre,hl⟩ := hopen hp hf
    exact ⟨pre,by rw [hl,List.append_assoc]; rfl⟩
  have hzero : s.done=false → s.tokens=0 := by grind
  have hkept : UsedOnce (s.log++[.grant x]) := hused.snoc nofun
  constructor <;> grind

/-- Posting an answer keeps the invariant: before `done` it is the only post. -/
theorem Inv.post (h : Inv s) (hn : s.posting=true) :
    Inv {s with posting := false,tokens := s.tokens+1} := by
  obtain ⟨hflag,haway,hans,hret,hlast,hone,htok,hpost,hopen,hfresh,hused⟩ := h
  have hzero : s.done=false → s.tokens=0 := by grind
  constructor <;> grind

/-- Taking a post keeps the invariant: before `done` it was the answer. -/
theorem Inv.wake (h : Inv s) (hp : s.pos=.waiting) (ht : 0<s.tokens) :
    Inv {s with pos := .woken,tokens := s.tokens-1} := by
  obtain ⟨hflag,haway,hans,hret,hlast,hone,htok,hpost,hopen,hfresh,hused⟩ := h
  have hdown : s.done=false → s.flag=false ∧ s.tokens=1 ∧ s.posting=false := by grind
  constructor <;> grind

/-- Going on keeps the invariant: the wait was answered. -/
theorem Inv.resume (h : Inv s) (hp : s.pos=.woken) (hd : s.done=false) :
    Inv {s with pos := .using} := by
  obtain ⟨hflag,haway,hans,hret,hlast,hone,htok,hpost,hopen,hfresh,hused⟩ := h
  have hdown : s.flag=false := by grind
  constructor <;> grind

/-- Using the slot keeps the invariant: its value was stored for this wait. -/
theorem Inv.use (h : Inv s) (hp : s.pos=.using) :
    Inv {s with pos := .away,log := s.log++[.use s.slot]} := by
  obtain ⟨hflag,haway,hans,hret,hlast,hone,htok,hpost,hopen,hfresh,hused⟩ := h
  have hown : ∃ pre,s.log=pre++[.wait,.grant s.slot] := hfresh (.inr hp)
  have hlog : UsedOnce (s.log++[.use s.slot]) := hused.snoc fun x he => by cases he; exact hown
  constructor <;> grind

/-- Leaving keeps the invariant. -/
theorem Inv.leave (h : Inv s) (hp : s.pos=.away ∨ s.pos=.woken ∧ s.done=true) :
    Inv {s with pos := .left} := by
  obtain ⟨hflag,haway,hans,hret,hlast,hone,htok,hpost,hopen,hfresh,hused⟩ := h
  constructor <;> grind

/-- Setting `done`, and posting after it, keeps the invariant. -/
theorem Inv.outside (h : Inv s) {done : Bool} {tokens : ℕ} (hd : s.done=true → done=true)
    (ht : s.tokens≤tokens) (hs : s.done=true ∨ tokens=s.tokens) :
    Inv {s with done := done,tokens := tokens} := by
  obtain ⟨hflag,haway,hans,hret,hlast,hone,htok,hpost,hopen,hfresh,hused⟩ := h
  constructor <;> grind

/-- The partner's last post keeps the invariant. -/
theorem Inv.retire (h : Inv s) (hd : s.done=true) :
    Inv {s with retired := true,tokens := s.tokens+1} := by
  obtain ⟨hflag,haway,hans,hret,hlast,hone,htok,hpost,hopen,hfresh,hused⟩ := h
  constructor <;> grind

/-- The invariant is kept by every step. -/
theorem Inv.step (h : Inv s) (hs : Step s t) : Inv t := by
  cases hs with
  | announce hp hd => exact h.announce hp hd
  | grant x hf hn => exact h.grant x hf
  | post hn => exact h.post hn
  | wake hp ht => exact h.wake hp ht
  | resume hp hd => exact h.resume hp hd
  | use hp => exact h.use hp
  | leave hp => exact h.leave hp
  | outside hd ht hs => exact h.outside hd ht hs
  | retire hd => exact h.retire hd

/-- The invariant is kept by any number of steps. -/
theorem Inv.steps (h : Inv s) (hs : Relation.ReflTransGen Step s t) : Inv t := by
  induction hs with
  | refl => exact h
  | tail _ hs ih => exact ih.step hs

/-- A party does not use the slot while its partner is about to post. -/
theorem Inv.unused_step (h : Inv s) (hu : s.posting=true → s.pos≠.using) (hs : Step s t)
    (hp : t.posting=true) : t.pos≠.using := by
  cases hs with
  | announce => exact Pos.noConfusion
  | grant x hf hn =>
    intro he
    exact Bool.false_ne_true ((h.away (.inr he)).symm.trans hf)
  | post hn => cases hp
  | wake => exact Pos.noConfusion
  | resume hw hd =>
    cases hw.symm.trans (h.posting hd hp).1
  | use => exact Pos.noConfusion
  | leave => exact Pos.noConfusion
  | outside => exact hu hp
  | retire => exact hu hp

/-- Nor after any number of steps. -/
theorem Inv.unused_steps (h : Inv s) (hu : s.posting=true → s.pos≠.using)
    (hs : Relation.ReflTransGen Step s t) : t.posting=true → t.pos≠.using := by
  induction hs with
  | refl => exact hu
  | tail hr hs ih => exact (h.steps hr).unused_step ih hs

/-- A party that works, an idle partner and no posts. -/
theorem Inv.init (x : α) : Inv ⟨.away,false,0,false,false,false,x,[]⟩ := by
  constructor <;> simp [UsedOnce]

end Yancat.Handover
