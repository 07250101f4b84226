import Yancat.Descriptors
import Yancat.Environment
import Yancat.OptionRuns
import Yancat.Shared

/-!
# One process of the whole program

`main` as a single process sees it, with what it acquires and releases: the
endpoints, the environment of every round, the task that falls to it, and the
way out. The result of a `fork` makes a child process of it or not. Of a transfer
only the memory that it uses and the entries that it makes in the log are kept.
What is acquired and released is followed through the program first, and what it
returns then alone. Two threads are not covered.
-/

namespace Yancat.Program

open Resources Kernel Wrappers Environment Descriptors Shared
open Parse (SockConsts)
open Options (Dir Endpoint ModeT Opt optParse setDefault)

/-- A program that is started with a command line that it accepts and that does not
ask for threads. -/
structure Session (δ : Type) extends Start δ where
  /-- The build. -/
  build : Options.Env δ
  /-- The command line. -/
  args : List Opt
  /-- It is accepted, with these options. -/
  accepted : optParse build args=some (.ok opts)
  /-- There are no threads. -/
  unthreaded : opts.mode≠.mt
  /-- The machine. -/
  machine : Machine
  /-- Where things are in the chunk. -/
  lay : Layout
  /-- The resume point of the reader, in bytes. -/
  rsp : ℕ
  /-- The resume point of the writer, in bytes. -/
  wsp : ℕ
  /-- The machine has the pages of the build. -/
  page : machine.page=build.page
  /-- Pages are a power of two. -/
  page_pow : ∃ p,build.page=2^p
  /-- A page is no larger than the buffer is by default. -/
  page_le : build.page ≤ (setDefault build).bsiz
  /-- SysV mappings are as fine as pages, where they are used. -/
  shmlba : machine.os=.bsd → machine.shmlba ≤ machine.page

/-- What a round of a session starts from. -/
def Session.set {δ : Type} (P : Session δ) : Setting where
  machine := P.machine
  lay := P.lay
  opts := OptionRuns.transfer P.opts P.rsp P.wsp
  mode := P.opts.mode
  parsed := OptionRuns.optParse_ranges P.accepted P.rsp P.wsp
  page_pow := by
    rw [P.page]
    exact P.page_pow
  page_le := by
    rw [P.page]
    exact (OptionRuns.optParse_stored P.accepted
      (show OptionRuns.sizeRange P.build 'm'=some _ from rfl)).range.elim
      (fun h => P.page_le.trans_eq h.symm) And.left
  shmlba := P.shmlba

/-- What others have logged in the shared chunk meanwhile, an entry for every bit. -/
def noted (g : ShrS) (marks : ℤ) : ShrS :=
  {g with errlog := fun i => g.errlog i || marks.toNat.testBit i}

/-- `release`, up to its posts: the failure mark of a process that could not begin. -/
def release (env : Env) (role : Role) (g : ShrS) : Call ShrS := do
  touch env.chunk.place
  let logged := (markStep (errIni+role.idx) g .errlog).1
  let aborted := (markStep (errIni+role.idx) logged .abrt).1
  pure (markStep (errIni+role.idx) aborted .done).1

/-- What a `fork` returns. -/
inductive Fork
  /-- It failed. -/
  | failed
  /-- In the child. -/
  | child
  /-- In the parent. -/
  | parent

/-- `fork`. -/
def fork : Call Fork := do
  let a ← ask
  pure (if a<0 then .failed else if a=0 then .child else .parent)

/-- `forkself`, which notes the number of the child in the shared chunk. -/
def forkself (env : Env) (g : ShrS) (role : Role) : Call (Option Role) := do
  match ← fork with
  | .failed => do
    let _ ← release env .arbiter g
    pure none
  | .child => pure (some role)
  | .parent => do
    touch env.chunk.place
    pure (some .arbiter)

/-- `setup_proc`. The child of the first `fork` does not make the second one. -/
def setupProc (env : Env) (g : ShrS) : Call (Option Role) :=
  if env.mode=.mp then do
    match ← forkself env g .reader with
    | some .arbiter => forkself env g .writer
    | r => pure r
  else pure (some .arbiter)

/-- The memory that a transfer uses, so many times. -/
def useMemory (env : Env) : ℕ → Call Unit
  | 0 => pure ()
  | n+1 => do
    touch env.chunk.place
    touch env.bufo.area.place
    touch env.bufo.scr.place
    useMemory env n

/-- A transfer uses memory. What fails in it, or meanwhile, is logged. -/
def transfer (env : Env) (g : ShrS) : Call ShrS := do
  let n ← ask
  useMemory env n.toNat
  let marks ← ask
  pure (noted g marks)

/-- `task_single`, with the chunk that it leaves. -/
def taskSingle (consts : SockConsts) (env : Env) (g : ShrS) (i o : Pack) :
    Call (ShrS×Pack×Pack) := do
  match ← fdOpen consts i with
  | none => do
    let g ← release env .arbiter g
    pure (g,i,o)
  | some i =>
    match ← fdOpen consts o with
    | none => do
      let ri ← fdClose i
      let g ← release env .arbiter g
      pure (g,ri.2,o)
    | some o => do
      let g ← transfer env g
      let ro ← fdClose o
      let ri ← fdClose i
      pure (g,ri.2,ro.2)

/-- `task_reader` and `task_writer`. -/
def taskOf (consts : SockConsts) (env : Env) (g : ShrS) (role : Role) (e : Pack) :
    Call Pack := do
  match ← fdOpen consts e with
  | none => do
    let _ ← release env role g
    pure e
  | some e => do
    let _ ← transfer env g
    let r ← fdClose e
    pure r.2

/-- `reaper`: the verdict on the log, to which others may have added until it is
read. -/
def reaper (env : Env) (g : ShrS) : Call ℤ := do
  touch env.chunk.place
  let marks ← ask
  pure (Shared.reaper (noted g marks))

/-- What a process does in its role, with the result of `main` so far. -/
def runRole (consts : SockConsts) (env : Env) (g : ShrS) (i o : Pack) :
    Role → Call (ℤ×Pack×Pack)
  | .reader => do
    let i ← taskOf consts env g .reader i
    pure (0,i,o)
  | .writer => do
    let o ← taskOf consts env g .writer o
    pure (0,i,o)
  | _ =>
    if env.mode=.sp then do
      let r ← taskSingle consts env g i o
      let ret ← reaper env r.1
      pure (ret,r.2)
    else do
      let ret ← reaper env g
      pure (ret,i,o)

/-- `cleanup_env`. -/
def cleanupEnv (env : Env) (role : Role) : Call Unit :=
  if role=.arbiter then cleanupArbiter env else cleanupChild env

/-- Where the loop of `main` is left, or how far it has come. -/
inductive Left
  /-- Another round is to start. -/
  | again (mode : ModeT) (fdi fdo : Pack)
  /-- Out of the loop, in a child of an environment or not. -/
  | out (ret : ℤ) (child : Option Env) (fdi fdo : Pack)

/-- The environment of a process that is not the arbiter. -/
def childOf (env : Env) (role : Role) : Option Env := if role=.arbiter then none else some env

/-- The loop of `main`, for so many rounds. -/
def rounds {δ : Type} (P : Session δ) : ℕ → ModeT → Pack → Pack → Call Left
  | 0,mode,i,o => pure (.again mode i o)
  | n+1,mode,i,o => do
    match ← setupEnv P.set.machine P.set.lay P.set.opts mode with
    | none => pure (.out (-1) none i o)
    | some env =>
      match ← setupProc env (.init env.bufo.buf) with
      | none => do
        cleanupArbiter env
        pure (.out (-1) none i o)
      | some role => do
        let r ← runRole P.build.consts env (.init env.bufo.buf) i o role
        cleanupEnv env role
        if P.opts.loop=true ∧ 0 ≤ r.1 ∧ role=.arbiter then rounds P n env.mode r.2.1 r.2.2
        else pure (.out r.1 (childOf env role) r.2.1 r.2.2)

/-- How a process has ended, if it has. -/
inductive Outcome
  /-- Between two rounds. -/
  | running (fdi fdo : Pack)
  /-- The main process has returned. -/
  | returned (ret : ℤ)
  /-- A child of an environment has. -/
  | child (env : Env)

/-- `main` behind `setup_fds`, for so many rounds. -/
def mainFrom {δ : Type} (P : Session δ) (n : ℕ) (i o : Pack) : Call Outcome := do
  match ← rounds P n P.set.mode i o with
  | .again _ i o => pure (.running i o)
  | .out ret child i o => do
    cleanupFds i o
    pure (child.elim (.returned ret) .child)

/-- `main` behind the command line. -/
def main {δ : Type} (P : Session δ) (n : ℕ) : Call Outcome := do
  match ← Descriptors.setupFds P.sys P.opts with
  | none => pure (.returned (-1))
  | some (i,o) => mainFrom P n i o

variable {need : Multiset Res} {env : Env} {g : ShrS} {e i o : Pack} {δ : Type} {P : Session δ}

/-- What both endpoints hold. -/
def ends (r : Pack×Pack) : Multiset Res := r.1.owns+r.2.owns

/-- What is left of an environment behind `cleanup_env`: in a child, what it
shares with others. -/
def behind (child : Option Env) : Multiset Res := child.elim 0 Env.kept

/-- The environment that the loop leaves. -/
def Left.rest : Left → Multiset Res
  | .again _ _ _ => 0
  | .out _ child _ _ => behind child

/-- No entry of the log is set. -/
def Clear (g : ShrS) : Prop := ∀ i<errlCnt,g.errlog i=false

/-- `release` logs its process. -/
theorem release_yields (role : Role) : Yields (release env role g) fun g' =>
    g'.errlog (errIni+role.idx)=true :=
  Yields.seq fun _ => .pure (Function.update_self _ _ _)

/-- A single process is the arbiter. -/
theorem setupProc_yields : Yields (setupProc env g) fun r => env.mode≠.mp → r=some .arbiter :=
  Yields.ite (fun hm _ hn => absurd hm hn) fun _ => .pure fun _ => rfl

/-- What a task leaves of its endpoint: the same but for the descriptor. -/
def Same (i o : Pack) (r : Pack×Pack) : Prop := SameButFd i r.1 ∧ SameButFd o r.2

/-- What a single task leaves. When it has logged nothing, both sides could be opened
and are closed again. -/
structure Single (i o : Pack) (r : ShrS×Pack×Pack) : Prop where
  /-- They are the same but for their descriptors. -/
  same : Same i o r.2
  /-- Both are closed. -/
  closed : Clear r.1 → r.2.1.fdp.fd=-1 ∧ r.2.2.fdp.fd=-1
  /-- Neither was spent before. -/
  fresh : Clear r.1 → ¬Spent i ∧ ¬Spent o

/-- An endpoint is itself. -/
theorem sameButFd_refl (e : Pack) : SameButFd e e := ⟨e.fdp.fd,rfl⟩

/-- A closed endpoint is the same but for the descriptor. -/
theorem sameButFd_closed {e' : Pack} (h : SameButFd e e') : SameButFd e (e'.withFd (-1)) := by
  obtain ⟨fd,rfl⟩ := h
  exact ⟨-1,rfl⟩

/-- A task that could not begin has logged it. -/
theorem Single.logged {r : Pack×Pack} (hs : Same i o r)
    (h : g.errlog (errIni+Role.arbiter.idx)=true) : Single i o (g,r) := by
  have hno : ¬Clear g := fun hc => by
    rw [hc _ (by decide)] at h
    cases h
  exact ⟨hs,fun hc => absurd hc hno,fun hc => absurd hc hno⟩

/-- A single task. -/
theorem taskSingle_yields (consts : SockConsts) (i o : Pack) :
    Yields (taskSingle consts env g i o) (Single i o) := by
  refine (fdOpen_yields consts i).bind fun r hr => ?_
  rcases hr with rfl|⟨i',rfl,hi,hni⟩
  · exact (release_yields .arbiter).bind fun g' hg =>
      .pure (.logged ⟨sameButFd_refl i,sameButFd_refl o⟩ hg)
  · refine (fdOpen_yields consts o).bind fun r hr => ?_
    rcases hr with rfl|⟨o',rfl,ho,hno⟩
    · refine (fdClose_yields i').bind fun ri hri => (release_yields .arbiter).bind fun g' hg => ?_
      rw [hri]
      exact .pure (.logged ⟨sameButFd_closed hi,sameButFd_refl o⟩ hg)
    · refine Yields.seq fun g' => (fdClose_yields o').bind fun ro hro => ?_
      refine (fdClose_yields i').bind fun ri hri => ?_
      rw [hro,hri]
      exact .pure ⟨⟨sameButFd_closed hi,sameButFd_closed ho⟩,fun _ => ⟨rfl,rfl⟩,
        fun _ => ⟨hni,hno⟩⟩

/-- A task of two. -/
theorem taskOf_yields (consts : SockConsts) (role : Role) (e : Pack) :
    Yields (taskOf consts env g role e) (SameButFd e) := by
  refine (fdOpen_yields consts e).bind fun r hr => ?_
  rcases hr with rfl|⟨e',rfl,he,_⟩
  · exact Yields.seq fun _ => .pure (sameButFd_refl e)
  · refine Yields.seq fun _ => (fdClose_yields e').bind fun r hr => ?_
    rw [hr]
    exact .pure (sameButFd_closed he)

/-- The verdict is zero or a failure, and zero only when nothing was logged. -/
theorem reaper_yields : Yields (reaper env g) fun r => r=0 ∧ Clear g ∨ r=-1 := by
  refine Yields.seq fun _ => Yields.seq fun marks => .pure ?_
  by_cases hz : Shared.reaper (noted g marks)=0
  · refine .inl ⟨hz,fun i hi => ?_⟩
    exact (Bool.or_eq_false_iff.mp (reaper_zero hz hi)).1
  · refine .inr ?_
    unfold Shared.reaper at hz ⊢
    split
    · rfl
    · next hn => exact absurd (if_neg hn) hz

/-- What a process does in its role. -/
structure Played (env : Env) (i o : Pack) (role : Role) (r : ℤ×Pack×Pack) : Prop where
  /-- The endpoints are the same but for their descriptors. -/
  same : Same i o r.2
  /-- The main process has a verdict. -/
  verdict : role=.arbiter → r.1=0 ∨ r.1=-1
  /-- When that is good, a single process has opened and closed both. -/
  closed : role=.arbiter → env.mode=.sp → r.1=0 → r.2.1.fdp.fd=-1 ∧ r.2.2.fdp.fd=-1 ∧
    ¬Spent i ∧ ¬Spent o

/-- A process in its role. -/
theorem runRole_yields (consts : SockConsts) (i o : Pack) (role : Role) :
    Yields (runRole consts env g i o role) (Played env i o role) := by
  have hmain : Yields
      (if env.mode=.sp then do
        let r ← taskSingle consts env g i o
        let ret ← reaper env r.1
        pure (ret,r.2)
      else do
        let ret ← reaper env g
        pure (ret,i,o)) (Played env i o .arbiter) := by
    refine Yields.ite (fun _ => ?_) fun hm => ?_
    · refine (taskSingle_yields consts i o).bind fun r hk => ?_
      refine reaper_yields.bind fun ret hret => .pure ⟨hk.same,fun _ => hret.imp_left And.left,?_⟩
      intro _ _ hz
      have hclear : Clear r.1 := (hret.resolve_right fun hn => by
        rw [hn] at hz
        cases hz).2
      exact ⟨(hk.closed hclear).1,(hk.closed hclear).2,hk.fresh hclear⟩
    · refine reaper_yields.bind fun ret hret => .pure ⟨?_,fun _ => hret.imp_left And.left,?_⟩
      · exact ⟨sameButFd_refl i,sameButFd_refl o⟩
      · exact fun _ hsp => absurd hsp hm
  have hrest : ∀ r,role≠.arbiter → Same i o r.2 → Played env i o role r :=
    fun r hne hs => ⟨hs,fun he => absurd he hne,fun he => absurd he hne⟩
  cases role with
  | arbiter => exact hmain
  | reader =>
    exact (taskOf_yields consts .reader i).bind fun r hr =>
      .pure (hrest _ Role.noConfusion ⟨hr,sameButFd_refl o⟩)
  | writer =>
    exact (taskOf_yields consts .writer o).bind fun r hr =>
      .pure (hrest _ Role.noConfusion ⟨sameButFd_refl i,hr⟩)
  | crcer => exact hmain.mono fun r hp => hrest r Role.noConfusion hp.same
  | sigrelay => exact hmain.mono fun r hp => hrest r Role.noConfusion hp.same

/-- The loop is left by the main process with a failure. -/
def Left.Fails (r : Left) : Prop := ∃ i o,r=.out (-1) none i o

/-- A side is a descriptor that the program was given. -/
def Given (i o : Pack) : Prop := i.fdp.type=.fdfd ∨ o.fdp.type=.fdfd

/-- How the loop is left after at most `n` rounds. -/
structure Looped (P : Session δ) (n : ℕ) (mode : ModeT) (i o : Pack) (r : Left) : Prop where
  /-- The main process leaves it with a failure, or after one good round. -/
  status : ∀ ret i' o',r=.out ret none i' o' → ret=-1 ∨ ret=0 ∧ P.opts.loop=false
  /-- Without the option for it there is one round. -/
  once : 1 ≤ n → P.opts.loop=false → ∀ mode' i' o',r≠.again mode' i' o'
  /-- A single process fails at once over a spent descriptor. -/
  spent : 1 ≤ n → mode=.sp → Spent i ∨ Spent o → r.Fails
  /-- It fails in the second round at the latest over a given one. -/
  given : 2 ≤ n → mode=.sp → P.opts.loop=true → Given i o → r.Fails

/-- A single process is only set up as such. -/
theorem possibleMode_sp (chunk : Wrappers.ShmS) (b : BufObj) : possibleMode .sp chunk b=.sp := rfl

/-- Endpoints that are given and closed are spent. -/
theorem spent_of_closed {r : Pack×Pack} (hs : Same i o r) (hg : Given i o)
    (hc : r.1.fdp.fd=-1 ∧ r.2.fdp.fd=-1) : Spent r.1 ∨ Spent r.2 := by
  obtain ⟨⟨fd,hi⟩,fd',ho⟩ := hs
  refine hg.imp (fun h => ⟨?_,hc.1⟩) fun h => ⟨?_,hc.2⟩
  · rw [hi]
    exact h
  · rw [ho]
    exact h

/-- Before any round. -/
theorem Looped.start (P : Session δ) (mode : ModeT) (i o : Pack) :
    Looped P 0 mode i o (.again mode i o) where
  status _ _ _ h := by cases h
  once h := absurd h (Nat.not_succ_le_zero 0)
  spent h := absurd h (Nat.not_succ_le_zero 0)
  given h := absurd h (Nat.not_succ_le_zero 1)

/-- A round for which nothing could be set up or started. -/
theorem Looped.failed (P : Session δ) (n : ℕ) (mode : ModeT) (i o : Pack) :
    Looped P n mode i o (.out (-1) none i o) where
  status _ _ _ h := by
    cases h
    exact .inl rfl
  once _ _ _ _ _ h := by cases h
  spent _ _ _ := ⟨i,o,rfl⟩
  given _ _ _ _ := ⟨i,o,rfl⟩

variable {n : ℕ} {mode : ModeT} {role : Role} {r : ℤ×Pack×Pack} {l : Left}

/-- A good round, and the rounds behind it. A single process has closed both sides
before the next round starts. -/
theorem Looped.next (hp : Played env i o .arbiter r) (hr : 0 ≤ r.1)
    (hloop : P.opts.loop=true) (hm : mode=.sp → env.mode=.sp)
    (hl : Looped P n env.mode r.2.1 r.2.2 l) : Looped P (n+1) mode i o l := by
  have hzero : r.1=0 := (hp.verdict rfl).resolve_right fun hn => by
    rw [hn] at hr
    exact absurd hr (by decide)
  refine ⟨hl.status,fun _ hno => ?_,fun _ hsp hs => ?_,fun hn hsp _ hg => ?_⟩
  · rw [hloop] at hno
    cases hno
  · obtain ⟨_,_,hni,hno⟩ := hp.closed rfl (hm hsp) hzero
    exact absurd hs (not_or.mpr ⟨hni,hno⟩)
  · obtain ⟨hci,hco,_⟩ := hp.closed rfl (hm hsp) hzero
    exact hl.spent (Nat.le_of_succ_le_succ hn) (hm hsp) (spent_of_closed hp.same hg ⟨hci,hco⟩)

/-- The last round: a failure, a single good one, or that of a child. -/
theorem Looped.last (hp : Played env i o role r)
    (hc : ¬(P.opts.loop=true ∧ 0 ≤ r.1 ∧ role=.arbiter))
    (hm : mode=.sp → env.mode=.sp ∧ role=.arbiter) :
    Looped P (n+1) mode i o (.out r.1 (childOf env role) r.2.1 r.2.2) := by
  have hstatus : role=.arbiter → r.1=-1 ∨ r.1=0 ∧ P.opts.loop=false := by
    rintro rfl
    refine (hp.verdict rfl).elim (fun hz => .inr ⟨hz,?_⟩) .inl
    exact Bool.eq_false_iff.mpr fun hl => hc ⟨hl,hz.symm.le,rfl⟩
  have hfails : role=.arbiter → r.1=-1 →
      (Left.out r.1 (childOf env role) r.2.1 r.2.2).Fails := by
    rintro rfl hn
    exact ⟨_,_,by rw [hn]; rfl⟩
  refine ⟨?_,?_,fun _ hsp hs => ?_,fun _ hsp hl _ => ?_⟩
  · intro ret i' o' h
    obtain ⟨hret,hchild,_⟩ := Left.out.inj h
    rw [←hret]
    refine hstatus ?_
    by_contra hne
    rw [childOf,if_neg hne] at hchild
    cases hchild
  · rintro _ _ _ _ _ ⟨⟩
  · obtain ⟨hm',rfl⟩ := hm hsp
    refine hfails rfl ((hp.verdict rfl).resolve_left fun hz => ?_)
    obtain ⟨_,_,hni,hno⟩ := hp.closed rfl hm' hz
    exact absurd hs (not_or.mpr ⟨hni,hno⟩)
  · obtain ⟨_,rfl⟩ := hm hsp
    refine hfails rfl ((hstatus rfl).resolve_right fun hz => ?_)
    rw [hl] at hz
    cases hz.2

/-- However the system answers, the loop is left so. -/
theorem rounds_yields (P : Session δ) (n : ℕ) (mode : ModeT) (i o : Pack) :
    Yields (rounds P n mode i o) (Looped P n mode i o) := by
  induction n generalizing mode i o with
  | zero => exact .pure (.start P mode i o)
  | succ n ih =>
    have henv : Yields (setupEnv P.set.machine P.set.lay P.set.opts mode) fun r =>
        ∀ env,r=some env → mode=.sp → env.mode=.sp :=
      Uses.yields ((setupEnv_uses _ _ _).mono fun r _ hk env hr => by
        rcases hk with ⟨rfl,_⟩|⟨env',rfl,hok,_⟩
        · cases hr
        · cases hr
          rintro rfl
          exact hok.mode.trans (possibleMode_sp _ _))
    refine henv.bind fun r hr => ?_
    cases r with
    | none => exact .pure (.failed P _ _ _ _)
    | some env =>
      have hsp := hr env rfl
      refine setupProc_yields.bind fun r hrole => ?_
      cases r with
      | none => exact Yields.seq fun _ => .pure (.failed P _ _ _ _)
      | some role =>
        refine (runRole_yields P.build.consts i o role).bind fun r hp => ?_
        refine Yields.seq fun _ => Yields.ite (fun hc => ?_) fun hc => ?_
        · obtain ⟨hloop,hret,rfl⟩ := hc
          exact (ih env.mode r.2.1 r.2.2).mono fun _ hl => .next hp hret hloop hsp hl
        · refine .pure (.last hp hc fun hm => ⟨hsp hm,?_⟩)
          refine Option.some.inj (hrole fun hmp => ?_)
          cases (hsp hm).symm.trans hmp

/-- The process is between two rounds. -/
def Outcome.runs : Outcome → Bool
  | .running _ _ => true
  | _ => false

/-- A command line requests nothing for a side, or a descriptor. -/
def Session.Inherits (P : Session δ) (dir : Dir) : Prop :=
  ∀ q,OptionRuns.requested P.build.consts P.args dir=some q → ∃ t,q=.fd t

/-- How a process ends. -/
structure Ended (P : Session δ) (n : ℕ) (r : Outcome) : Prop where
  /-- The main process fails, or has made one good round. -/
  status : ∀ ret,r=.returned ret → ret=-1 ∨ ret=0 ∧ P.opts.loop=false
  /-- Without the option for it there is one round. -/
  once : 1 ≤ n → P.opts.loop=false → r.runs=false
  /-- The second round of a single process fails at the latest over a descriptor
  that the program was given. -/
  given : 2 ≤ n → P.opts.mode≠.mp → P.opts.loop=true → (∃ dir,P.Inherits dir) →
    r=.returned (-1)

/-- A side for which nothing else was requested is on a descriptor that the program
was given. -/
theorem Session.Inherits.built {dir : Dir} (h : P.Inherits dir)
    (hb : Built (P.sys dir) P.opts dir e) : e.fdp.type=.fdfd := by
  obtain ⟨hasks,_⟩ := OptionRuns.optParse_requested P.accepted dir
  refine (hb.resolve_right fun hn => ?_).1
  have hnone : P.opts.file dir=none ∧ (P.opts.sock dir).dom=0 := by
    cases hq : OptionRuns.requested P.build.consts P.args dir with
    | none =>
      rw [hq] at hasks
      exact hasks.2
    | some q =>
      obtain ⟨t,rfl⟩ := h q hq
      rw [hq] at hasks
      exact hasks.2
  exact hn.2.elim (fun hf => hf hnone.1) fun hs => hs hnone.2

/-- A session that does not ask for processes asks for a single one. -/
theorem Session.single (P : Session δ) (h : P.opts.mode≠.mp) : P.opts.mode=.sp := by
  have hmt := P.unthreaded
  cases hm : P.opts.mode with
  | sp => rfl
  | mp => exact absurd hm h
  | mt => exact absurd hm hmt

/-- However the system answers, the process ends so. -/
theorem main_yields (P : Session δ) (n : ℕ) : Yields (main P n) (Ended P n) := by
  refine (setupFds_yields P.toStart).bind fun r hr => ?_
  rcases hr with rfl|⟨i,o,rfl,hi,ho⟩
  · refine .pure ⟨?_,fun _ _ => rfl,fun _ _ _ _ => rfl⟩
    rintro ret ⟨⟩
    exact .inl rfl
  · have hgiven : (∃ dir,P.Inherits dir) → Given i o := by
      rintro ⟨dir,hd⟩
      cases dir with
      | inp => exact .inl (hd.built hi)
      | out => exact .inr (hd.built ho)
    refine (rounds_yields P n P.set.mode i o).bind fun l hl => ?_
    cases l with
    | again mode i' o' =>
      refine .pure ⟨?_,?_,?_⟩
      · rintro _ ⟨⟩
      · exact fun hn hloop => absurd rfl (hl.once hn hloop _ _ _)
      · intro hn hm hloop hd
        obtain ⟨_,_,h⟩ := hl.given hn (P.single hm) hloop (hgiven hd)
        cases h
    | out ret child i' o' =>
      refine Yields.seq fun _ => .pure ⟨?_,?_,?_⟩
      · intro ret' h
        cases child with
        | none =>
          cases h
          exact hl.status _ _ _ rfl
        | some env => cases h
      · intro _ _
        cases child <;> rfl
      · intro hn hm hloop hd
        obtain ⟨_,_,h⟩ := hl.given hn (P.single hm) hloop (hgiven hd)
        cases h
        rfl

/-- Arguments that ask for one process and for the loop. -/
def loopArgs : List Opt := [.flag 'g',.flag '1']

/-- The options that these give. -/
def loopOpts : Options.OptionsS Unit := {setDefault Options.linuxEnv with loop := true,mode := .sp}

/-- A session that loops from the standard input to the standard output. -/
def loopSession : Session Unit where
  sys _ := Endpoints.opened [0,1]
  opts := loopOpts
  inh := {0,1}
  known dir fd acc h := by
    have hin : fd∈[(0 : BitVec 32),1] := by
      by_contra hno
      have hnone : (Endpoints.opened [0,1]).fcntl fd=none := if_neg hno
      rw [hnone] at h
      cases h
    have hfd : fd=0 ∨ fd=1 := by
      rw [List.mem_cons,List.mem_singleton] at hin
      exact hin
    rcases hfd with rfl|rfl <;> decide
  build := Options.linuxEnv
  args := loopArgs
  accepted := rfl
  unthreaded := by
    intro h
    cases h
  machine := ⟨.linux,4096,4096,[],fun _ _ => 0⟩
  lay := ⟨600,100,200,300⟩
  rsp := 0
  wsp := 0
  page := rfl
  page_pow := ⟨12,rfl⟩
  page_le := by decide
  shmlba h := by cases h

/-- The answers of a system that maps a ring of four megabytes twice, and lets a
transfer of two moves succeed. -/
def goodRound : List ℤ :=
  List.replicate 9 0++[1000,1,2,3,4,5,6,7,8,3,0,40960]++[2000,1,2,3,4,5,6,7,8,3,0,8388608]++
    [12582912]++[3000,1,2,3,4,5,6,7,8,3,0,33554432]++[2,0,0,0,0]

/-- A world in which two rounds can be made. -/
def looping : World Clash where
  held := loopSession.inherited
  apart := ⟨[.fd 0,.fd 1],rfl,by decide⟩
  faults := 0
  answers n := (goodRound++goodRound).getD n (-1)

/-- A world with one descriptor that is open. -/
def threeOpen : World Clash where
  held := {.fd 3}
  apart := ⟨[.fd 3],rfl,by decide⟩
  faults := 0
  answers _ := 0

-- a descriptor that both sides were constructed on is closed twice
example : ((do
    match ← setupFds (fun _ => Endpoints.opened [3]) {loopOpts with fd := fun _ => some ['3']} with
    | none => pure ()
    | some (i,o) => cleanupFds i o) threeOpen).2.faults=1 := by decide +kernel

/-- What the main process returns, however the system answers and whatever its sides
were constructed on. With the option for the loop that is never a success, and a
single process whose input or output is a descriptor that it was given gets no
further than into its second round, since the first one has closed it. Without the
option there is one round. -/
theorem exit_law (P : Session δ) (n : ℕ) (w : World Clash) :
    (∀ ret,(main P n w).1=.returned ret → ret=-1 ∨ ret=0 ∧ P.opts.loop=false) ∧
      (1 ≤ n → P.opts.loop=false → (main P n w).1.runs=false) ∧
      (2 ≤ n → P.opts.mode≠.mp → P.opts.loop=true → (∃ dir,P.Inherits dir) →
        (main P n w).1=.returned (-1)) :=
  have hk := main_yields P n w
  ⟨hk.status,hk.once,hk.given⟩

/-- The session is running behind its first round, and fails in its second one. -/
theorem exit_law_looping : (main loopSession 1 looping).1.runs=true ∧
    (main loopSession 2 looping).1=.returned (-1) := by
  refine ⟨by decide +kernel,(exit_law loopSession 2 looping).2.2 (le_refl 2) (by decide) rfl
    ⟨.inp,fun q hq => ?_⟩⟩
  have hnone : OptionRuns.requested Parse.linux loopArgs .inp=none := by decide
  exact absurd (hnone.symm.trans hq) (Option.some_ne_none q).symm

end Yancat.Program
