import Yancat.Shared

/-!
# Order of the failure flags

Whoever marks a failure logs it first, raises `abrt` second and `done` last,
and no step lowers any of the three. What a position in such a sequence knows
about the flags is therefore stable under every other step.
-/

namespace Yancat.FailureFlags

open Buffer Shared

/-- Some log entry is set. -/
def Logged (g : ShrS) : Prop := ∃ i<errlCnt,g.errlog i=true

/-- Flags are only ever raised. -/
structure Raised (g g' : ShrS) : Prop where
  /-- Log entries stay. -/
  errlog : ∀ i,g.errlog i=true → g'.errlog i=true
  /-- `abrt` stays. -/
  abrt : g.abrt=true → g'.abrt=true
  /-- `done` stays. -/
  done : g.done=true → g'.done=true

/-- What a position in a failure mark knows. -/
def MarkOk (g : ShrS) : MarkPc → Prop
  | .errlog => True
  | .abrt => Logged g
  | .done => Logged g ∧ g.abrt=true

/-- What a position in `release` knows. -/
def RelOk (g : ShrS) : RelPc → Prop
  | .mark p => MarkOk g p
  | _ => Logged g ∧ g.abrt=true ∧ g.done=true

/-- Neither `abrt` nor `done` is raised out of order. -/
structure Ordered (g g' : ShrS) : Prop where
  /-- `abrt` is raised after a log entry. -/
  abrt : g'.abrt=true → g.abrt=true ∨ Logged g
  /-- `done` is raised after `abrt`. -/
  done : g'.done=true → g.done=true ∨ g.abrt=true

variable {g g' g'' : ShrS} {slot : ℕ}

/-- Equal flags are raised flags. -/
theorem Raised.of_eq (he : g'.errlog=g.errlog) (ha : g'.abrt=g.abrt) (hd : g'.done=g.done) :
    Raised g g' :=
  ⟨fun i h => by rw [he]; exact h,fun h => by rw [ha]; exact h,fun h => by rw [hd]; exact h⟩

/-- A set log entry stays set. -/
theorem Logged.mono (h : Logged g) (hr : Raised g g') : Logged g' := by
  obtain ⟨i,hi,hl⟩ := h
  exact ⟨i,hi,hr.errlog i hl⟩

/-- Positions in a failure mark keep what they know. -/
theorem MarkOk.mono {p : MarkPc} (h : MarkOk g p) (hr : Raised g g') : MarkOk g' p := by
  cases p with
  | errlog => trivial
  | abrt => exact Logged.mono h hr
  | done => exact ⟨h.1.mono hr,hr.abrt h.2⟩

/-- Positions in `release` keep what they know. -/
theorem RelOk.mono {p : RelPc} (h : RelOk g p) (hr : Raised g g') : RelOk g' p := by
  cases p with
  | mark p => exact MarkOk.mono h hr
  | nodata => exact ⟨h.1.mono hr,hr.abrt h.2.1,hr.done h.2.2⟩
  | nospace => exact ⟨h.1.mono hr,hr.abrt h.2.1,hr.done h.2.2⟩

/-- Setting a log entry raises it. -/
theorem Raised.log (g : ShrS) (slot : ℕ) :
    Raised g {g with errlog := Function.update g.errlog slot true} where
  errlog := by
    intro i hi
    by_cases he : i=slot
    · subst he
      exact Function.update_self _ _ _
    · exact (Function.update_of_ne he _ _).trans hi
  abrt := id
  done := id

/-- Setting a log entry logs. -/
theorem Logged.log (g : ShrS) (hs : slot<errlCnt) :
    Logged {g with errlog := Function.update g.errlog slot true} :=
  ⟨slot,hs,Function.update_self _ _ _⟩

/-- Every role has a log entry for signals. -/
theorem errSig_lt (role : Role) : errSig+role.idx<errlCnt := by
  cases role <;> simp [Role.idx,errSig,errlCnt]

/-- A failure mark only raises flags. -/
theorem markStep_raised (slot : ℕ) (g : ShrS) (p : MarkPc) : Raised g (markStep slot g p).1 := by
  cases p with
  | errlog => exact .log g slot
  | abrt => exact ⟨fun _ h => h,fun _ => rfl,id⟩
  | done => exact ⟨fun _ h => h,id,fun _ => rfl⟩

/-- A failure mark raises flags in order. -/
theorem markStep_ordered {p : MarkPc} (h : MarkOk g p) : Ordered g (markStep slot g p).1 := by
  cases p with
  | errlog => exact ⟨.inl,.inl⟩
  | abrt => exact ⟨fun _ => .inr h,.inl⟩
  | done => exact ⟨.inl,fun _ => .inr h.2⟩

/-- The next position of a failure mark knows what it needs. -/
theorem markStep_next {p q : MarkPc} (hs : slot<errlCnt) (h : MarkOk g p)
    (hq : (markStep slot g p).2=some q) : MarkOk (markStep slot g p).1 q := by
  cases p with
  | errlog =>
    cases hq
    exact Logged.log g hs
  | abrt =>
    cases hq
    exact ⟨h,rfl⟩
  | done => cases hq

/-- After the last assignment all three flags are set. -/
theorem markStep_last {p : MarkPc} (h : MarkOk g p) (hq : (markStep slot g p).2=none) :
    Logged (markStep slot g p).1 ∧ (markStep slot g p).1.abrt=true ∧
      (markStep slot g p).1.done=true := by
  cases p with
  | errlog => cases hq
  | abrt => cases hq
  | done => exact ⟨h.1,h.2,rfl⟩

/-- After any statement of a failure mark there is a log entry. -/
theorem markStep_logged {p : MarkPc} (hs : slot<errlCnt) (h : MarkOk g p) :
    Logged (markStep slot g p).1 := by
  cases p with
  | errlog => exact Logged.log g hs
  | abrt => exact Logged.mono h (markStep_raised slot g .abrt)
  | done => exact h.1.mono (markStep_raised slot g .done)

/-- `release` only raises flags. -/
theorem release_raised {p : RelPc} {next : Option RelPc} (hr : release slot g p=(g',next)) :
    Raised g g' := by
  cases p with
  | mark p =>
    unfold release at hr
    dsimp only at hr
    split at hr <;> cases hr <;> exact markStep_raised slot g p
  | nodata =>
    cases hr
    exact .of_eq rfl rfl rfl
  | nospace =>
    cases hr
    exact .of_eq rfl rfl rfl

/-- After any statement of `release` there is a log entry. -/
theorem release_logged {p : RelPc} {next : Option RelPc} (hs : slot<errlCnt) (h : RelOk g p)
    (hr : release slot g p=(g',next)) : Logged g' := by
  cases p with
  | mark p =>
    unfold release at hr
    dsimp only at hr
    split at hr <;> cases hr <;> exact markStep_logged hs h
  | nodata =>
    cases hr
    exact h.1
  | nospace =>
    cases hr
    exact h.1

/-- `release` raises flags in order. -/
theorem release_ordered {p : RelPc} {next : Option RelPc} (h : RelOk g p)
    (hr : release slot g p=(g',next)) : Ordered g g' := by
  cases p with
  | mark p =>
    unfold release at hr
    dsimp only at hr
    split at hr <;> cases hr <;> exact markStep_ordered h
  | nodata =>
    cases hr
    exact ⟨.inl,.inl⟩
  | nospace =>
    cases hr
    exact ⟨.inl,.inl⟩

/-- The next position of `release` knows what it needs. -/
theorem release_next {p q : RelPc} (hs : slot<errlCnt) (h : RelOk g p)
    (hr : release slot g p=(g',some q)) : RelOk g' q := by
  cases p with
  | mark p =>
    unfold release at hr
    dsimp only at hr
    split at hr
    · next m hm =>
      cases hr
      exact markStep_next hs h hm
    · next hm =>
      cases hr
      exact markStep_last h hm
  | nodata =>
    cases hr
    exact h
  | nospace => cases hr

/-- After its last statement all three flags are set. -/
theorem release_last {p : RelPc} (h : RelOk g p) (hr : release slot g p=(g',none)) :
    Logged g' ∧ g'.abrt=true ∧ g'.done=true := by
  cases p with
  | mark p =>
    unfold release at hr
    dsimp only at hr
    split at hr <;> cases hr
  | nodata => cases hr
  | nospace =>
    cases hr
    exact h

/-- A failure mark touches nothing but the flags. -/
theorem markStep_frame (slot : ℕ) (g : ShrS) (p : MarkPc) :
    ∃ errlog abrt done,
      (markStep slot g p).1={g with errlog := errlog,abrt := abrt,done := done} := by
  cases p with
  | errlog => exact ⟨_,g.abrt,g.done,rfl⟩
  | abrt => exact ⟨g.errlog,true,g.done,rfl⟩
  | done => exact ⟨g.errlog,g.abrt,true,rfl⟩

/-- `release` touches nothing but the flags and the semaphores. -/
theorem release_frame {p : RelPc} {next : Option RelPc} (hr : release slot g p=(g',next)) :
    ∃ errlog abrt done nodata nospace,
      g'={g with
        errlog := errlog
        abrt := abrt
        done := done
        nodata := nodata
        nospace := nospace} := by
  cases p with
  | mark p =>
    obtain ⟨errlog,abrt,done,hm⟩ := markStep_frame slot g p
    unfold release at hr
    dsimp only at hr
    split at hr <;> cases hr <;> exact ⟨errlog,abrt,done,g.nodata,g.nospace,hm⟩
  | nodata =>
    cases hr
    exact ⟨_,_,_,_,_,rfl⟩
  | nospace =>
    cases hr
    exact ⟨_,_,_,_,_,rfl⟩

/-- What one statement of `release` can do. -/
inductive ReleaseStep (g : ShrS) : RelPc → ShrS → Option RelPc → Prop
  /-- A statement of the failure mark. -/
  | mark {p q : RelPc} {errlog : ℕ → Bool} {abrt done : Bool} (hp : p≠.nospace)
    (hq : q≠.nospace) (hd : g.done=true → done=true) :
    ReleaseStep g p {g with errlog := errlog,abrt := abrt,done := done} (some q)
  /-- The post of `nodata`. -/
  | nodata (hd : g.done=true) :
    ReleaseStep g .nodata {g with nodata := g.nodata+1} (some .nospace)
  /-- The post of `nospace`. -/
  | nospace (hd : g.done=true) : ReleaseStep g .nospace {g with nospace := g.nospace+1} none

/-- The executable `release` does nothing else: both posts come after `done`. -/
theorem release_cases {p : RelPc} {next : Option RelPc} (h : RelOk g p)
    (hr : release slot g p=(g',next)) : ReleaseStep g p g' next := by
  cases p with
  | mark p =>
    obtain ⟨errlog,abrt,done,hm⟩ := markStep_frame slot g p
    have hd := (markStep_raised slot g p).done
    rw [hm] at hd
    unfold release at hr
    dsimp only at hr
    rw [hm] at hr
    split at hr <;> cases hr <;> exact .mark nofun nofun hd
  | nodata =>
    cases hr
    exact .nodata h.2.2
  | nospace =>
    cases hr
    exact .nospace h.2.2

end Yancat.FailureFlags
