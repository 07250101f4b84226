import Yancat.OptionRuns
import Yancat.Fdpack

/-!
# Requested endpoints

What each constructor needs is said in terms of the answers of the system. The
setup of a side gives the requested endpoint where that can be constructed and
the standard descriptor where it can not. So a request is never replaced exactly
when every requested endpoint can be constructed and has its number kept, or
when some side has nothing to fall back on.
-/

namespace Yancat.Endpoints

open Strings Common Parse Options OptionRuns Fdpack

variable {δ : Type}

/-- A descriptor is open for a side. -/
def Opens (S : Sys) (dir : Dir) (fd : BitVec 32) : Prop :=
  ∃ acc,S.fcntl fd=some acc ∧ ¬(dir=.out ∧ acc=.rdonly) ∧ ¬(dir=.inp ∧ acc=.wronly)

/-- The address of a host: any for a wildcard, on the input side only, else the
one that is found. -/
def Resolves (S : Sys) (dir : Dir) (host : List Char) (addr : BitVec 32) : Prop :=
  if host=[] ∨ host=['*'] then dir=.inp ∧ addr=0
  else ∃ hent,S.gethostbyname host=some hent ∧ hent.hLength=sAddrSize ∧ hent.hAddrtype=afInet ∧
    hent.addr=addr

/-- An endpoint can be constructed. -/
def Constructible (S : Sys) (dir : Dir) : Endpoint → Prop
  | .fd t => (getUl t).2=none ∧ Opens S dir (BitVec.ofNat 32 (getUl t).1)
  | .file path => path.length<getPathmax S path ∧ S.malloc=true
  | .sock np => ∃ addr,Resolves S dir np.host addr

/-- The number of a descriptor is one of the type it is stored in. -/
def Kept : Endpoint → Prop
  | .fd t => (getUl t).1<2^31
  | _ => True

/-- A constructed endpoint is the one that was asked for. -/
def Denotes (S : Sys) (dir : Dir) : Endpoint → FdpackS → Prop
  | .fd t,p => p.type=.fdfd ∧ (getUl t).2=none ∧ p.fd.toInt=(getUl t).1
  | .file path,p => p.type=.fdfile path
  | .sock np,p =>
    ∃ addr waitall,p.type=.fdsock ⟨np.port,addr⟩ np waitall ∧ Resolves S dir np.host addr

/-- The standard descriptor of a side. -/
def stdFd : Dir → BitVec 32
  | .inp => 0
  | .out => 1

/-- What a side may end up with: what was requested, the standard descriptor when
nothing was. -/
def Meets (S : Sys) (dir : Dir) : Option Endpoint → FdpackS → Prop
  | some q,p => p.dir=dir ∧ Denotes S dir q p
  | none,p => p.dir=dir ∧ p.type=.fdfd ∧ p.fd=stdFd dir

/-- A request is used or the setup fails. -/
structure NeverReplaced (S : Dir → Sys) (req : Dir → Option Endpoint)
    (r : Option (FdpackS×FdpackS)) : Prop where
  /-- After a success each side has what was requested for it. -/
  used : ∀ fdi fdo,r=some (fdi,fdo) → Meets (S .inp) .inp (req .inp) fdi ∧
    Meets (S .out) .out (req .out) fdo
  /-- Without a requested endpoint there is no success. -/
  refused : ∀ dir q,req dir=some q → ¬Constructible (S dir) dir q → r=none

variable {S : Sys} {dir : Dir} {t path : List Char} {sync msgwait stdsync : Bool} {q : Endpoint}
  {np : NetpntS} {opts : OptionsS δ} {p : FdpackS}

/-- What holds of both sides. -/
theorem forall_dir {P : Dir → Prop} : (∀ dir,P dir) ↔ P .inp ∧ P .out := by
  constructor
  · exact fun h => ⟨h .inp,h .out⟩
  · rintro ⟨hin,hout⟩ (_|_)
    · exact hin
    · exact hout

/-- A descriptor that is open for its side is constructed. -/
theorem fdCtor_ok (h : Constructible S dir (.fd t)) : fdCtor S dir (some t) sync=
    some ⟨.fdfd,BitVec.ofNat 32 (getUl t).1,dir,sync && dir=.out⟩ := by
  obtain ⟨herr,acc,hacc,hw,hr⟩ := h
  have hnot : ¬(getUl t).2≠none := not_not_intro herr
  rw [fdCtor,Option.bind_some,if_neg hnot,hacc,Option.bind_some,if_neg hw,if_neg hr]

/-- Any other descriptor is refused. -/
theorem fdCtor_fail (h : ¬Constructible S dir (.fd t)) : fdCtor S dir (some t) sync=none := by
  rw [fdCtor,Option.bind_some]
  dsimp only
  split
  · rfl
  · next herr =>
    cases hacc : S.fcntl (BitVec.ofNat 32 (getUl t).1) with
    | none => rfl
    | some acc =>
      rw [Option.bind_some]
      split
      · rfl
      · next hw =>
        split
        · rfl
        · next hr => exact absurd ⟨not_not.mp herr,acc,hacc,hw,hr⟩ h

/-- A file with a path that is not too long is constructed. -/
theorem fdCtorF_ok (h : Constructible S dir (.file path)) : fdCtorF S dir (some path) sync=
    some ⟨.fdfile path,-1,dir,sync && dir=.out⟩ := by
  have hmalloc : ¬S.malloc=false := by
    rw [h.2]
    exact Bool.noConfusion
  rw [fdCtorF,Option.bind_some,if_neg (Nat.not_le.mpr h.1),if_neg hmalloc]

/-- Any other file is refused. -/
theorem fdCtorF_fail (h : ¬Constructible S dir (.file path)) :
    fdCtorF S dir (some path) sync=none := by
  rw [fdCtorF,Option.bind_some]
  split
  · rfl
  · next hlen =>
    split
    · rfl
    · next hm => exact absurd ⟨Nat.not_le.mp hlen,Bool.eq_true_of_not_eq_false hm⟩ h

/-- A socket for a host that has an address is constructed. -/
theorem fdCtorS_ok (msgwait : Bool) (hdom : np.dom≠0) (h : Constructible S dir (.sock np)) :
    ∃ addr waitall,Resolves S dir np.host addr ∧ fdCtorS S dir np msgwait=
      some ⟨.fdsock ⟨np.port,addr⟩ np waitall,-1,dir,false⟩ := by
  obtain ⟨addr,ha⟩ := h
  refine ⟨addr,dir=.inp && msgwait,ha,?_⟩
  rw [Resolves] at ha
  rw [fdCtorS,if_neg hdom]
  split at ha
  · next hany =>
    have hnot : ¬(np.host≠[] ∧ np.host≠['*']) := by
      rw [←not_or]
      exact not_not_intro hany
    have hin : ¬dir=.out := by
      rw [ha.1]
      decide
    rw [if_neg hnot,if_neg hin,ha.2]
  · next hany =>
    obtain ⟨hent,hh,hlen,htype,hent_addr⟩ := ha
    have hgood : ¬(hent.hLength≠sAddrSize ∨ hent.hAddrtype≠afInet) := by
      rw [not_or,not_not,not_not]
      exact ⟨hlen,htype⟩
    rw [if_pos (not_or.mp hany),hh,Option.bind_some,if_neg hgood,hent_addr]

/-- Any other socket is refused. -/
theorem fdCtorS_fail (h : ¬Constructible S dir (.sock np)) : fdCtorS S dir np msgwait=none := by
  rw [fdCtorS]
  split
  · rfl
  split
  · next hname =>
    have hnot : ¬(np.host=[] ∨ np.host=['*']) := not_or.mpr hname
    cases hh : S.gethostbyname np.host with
    | none => rfl
    | some hent =>
      rw [Option.bind_some]
      split
      · rfl
      · next hgood =>
        rw [not_or,not_not,not_not] at hgood
        refine absurd ⟨hent.addr,?_⟩ h
        rw [Resolves,if_neg hnot]
        exact ⟨hent,hh,hgood.1,hgood.2,rfl⟩
  · next hname =>
    split
    · rfl
    · next hdir =>
      refine absurd ⟨0,?_⟩ h
      rw [Resolves,if_pos (by tauto)]
      cases dir with
      | inp => exact ⟨rfl,rfl⟩
      | out => exact absurd rfl hdir

/-- What is constructed on a descriptor: one that is open, by its number. -/
theorem fdCtor_some {fdstr : Option (List Char)} (h : fdCtor S dir fdstr sync=some p) :
    p.type=.fdfd ∧ (∃ text,fdstr=some text ∧ p.fd=BitVec.ofNat 32 (getUl text).1) ∧
      ∃ acc,S.fcntl p.fd=some acc := by
  obtain ⟨text,htext,h⟩ := Option.bind_eq_some_iff.mp h
  dsimp only at h
  split at h
  · cases h
  · obtain ⟨acc,hacc,h⟩ := Option.bind_eq_some_iff.mp h
    split at h
    · cases h
    · split at h
      · cases h
      · cases h
        exact ⟨rfl,⟨text,htext,rfl⟩,acc,hacc⟩

/-- What is constructed on a file: the path that was asked for, without a descriptor. -/
theorem fdCtorF_some (h : fdCtorF S dir (some path) sync=some p) : p.type=.fdfile path := by
  rw [fdCtorF,Option.bind_some] at h
  split at h
  · cases h
  · split at h
    · cases h
    · cases h
      rfl

/-- What is constructed on a socket: the endpoint that was asked for, without a
descriptor yet. -/
theorem fdCtorS_some (h : fdCtorS S dir np msgwait=some p) :
    p.fd=-1 ∧ np.dom≠0 ∧ ∃ saddr waitall,p.type=.fdsock saddr np waitall := by
  unfold fdCtorS at h
  split at h
  · cases h
  · next hdom =>
    split at h
    · obtain ⟨hent,_,h⟩ := Option.bind_eq_some_iff.mp h
      split at h
      · cases h
      · cases h
        exact ⟨rfl,hdom,_,_,rfl⟩
    · split at h
      · cases h
      · cases h
        exact ⟨rfl,hdom,_,_,rfl⟩

/-- The constructor of an endpoint. -/
def construct (S : Sys) (dir : Dir) (sync msgwait : Bool) : Endpoint → Option FdpackS
  | .fd t => fdCtor S dir (some t) sync
  | .file path => fdCtorF S dir (some path) sync
  | .sock np => fdCtorS S dir np msgwait

/-- Nothing is constructed that can not be. -/
theorem construct_fail (h : ¬Constructible S dir q) : construct S dir sync msgwait q=none := by
  cases q with
  | fd t => exact fdCtor_fail h
  | file path => exact fdCtorF_fail h
  | sock np => exact fdCtorS_fail h

/-- The stored number of a descriptor is its number when that is in range. -/
theorem toInt_ofNat_iff (n : ℕ) : (BitVec.ofNat 32 n).toInt=n ↔ n<2^31 := by
  rw [BitVec.toInt_eq_toNat_cond,BitVec.toNat_ofNat]
  split <;> omega

/-- What can be constructed is constructed, and is what was asked for exactly when
the number of a descriptor is kept. -/
theorem construct_ok (sync msgwait : Bool) (hdom : ∀ np,q=.sock np → np.dom≠0)
    (h : Constructible S dir q) :
    ∃ p,construct S dir sync msgwait q=some p ∧ (Meets S dir (some q) p ↔ Kept q) := by
  cases q with
  | fd t =>
    refine ⟨_,fdCtor_ok h,?_⟩
    rw [Kept,←toInt_ofNat_iff]
    exact ⟨fun hm => hm.2.2.2,fun hk => ⟨rfl,rfl,h.1,hk⟩⟩
  | file path => exact ⟨_,fdCtorF_ok h,iff_of_true ⟨rfl,rfl⟩ trivial⟩
  | sock np =>
    obtain ⟨addr,waitall,ha,hp⟩ := fdCtorS_ok msgwait (hdom np rfl) h
    exact ⟨_,hp,iff_of_true ⟨rfl,addr,waitall,rfl,ha⟩ trivial⟩

/-- The number of the standard descriptor of a side. -/
theorem getUl_dash (dir : Dir) : getUl (dash dir)=((stdFd dir).toNat,none) := by
  cases dir <;> rfl

/-- The standard descriptor of a side is used when it is open for it. -/
theorem std_ok (h : Opens S dir (stdFd dir)) : fdCtor S dir (some (dash dir)) stdsync=
    some ⟨.fdfd,stdFd dir,dir,stdsync && dir=.out⟩ := by
  have hc : Constructible S dir (.fd (dash dir)) := by
    rw [Constructible,getUl_dash,BitVec.ofNat_toNat,BitVec.setWidth_eq]
    exact ⟨rfl,h⟩
  rw [fdCtor_ok hc,getUl_dash,BitVec.ofNat_toNat,BitVec.setWidth_eq]

/-- Otherwise there is nothing to fall back on. -/
theorem std_fail (h : ¬Opens S dir (stdFd dir)) :
    fdCtor S dir (some (dash dir)) stdsync=none := by
  refine fdCtor_fail fun hc => h ?_
  rw [Constructible,getUl_dash,BitVec.ofNat_toNat,BitVec.setWidth_eq] at hc
  exact hc.2

/-- The stages of a side try what it asks for, then the standard descriptor. -/
theorem ctorSide_eq {req : Option Endpoint} (h : AsksFor opts dir req) :
    ctorSide S opts dir msgwait stdsync=
      ((req.bind (construct S dir opts.fsync msgwait)).or
        (fdCtor S dir (some (dash dir)) stdsync)) := by
  have hfd : fdCtor S dir none opts.fsync=none := rfl
  have hfile : fdCtorF S dir none opts.fsync=none := rfl
  have hsock : ∀ np : NetpntS,np.dom=0 → fdCtorS S dir np msgwait=none := fun np hd => if_pos hd
  rcases req with _|q
  · obtain ⟨h1,h2,h3⟩ := h
    rw [ctorSide,h1,h2,hfd,hfile,hsock _ h3]
    rfl
  · cases q with
    | fd t =>
      obtain ⟨h1,h2,h3⟩ := h
      rw [ctorSide,h1,h2,hfile,hsock _ h3,Option.bind_some,construct]
      cases fdCtor S dir (some t) opts.fsync <;> rfl
    | file path =>
      obtain ⟨h1,h2,h3⟩ := h
      rw [ctorSide,h1,h2,hfd,hsock _ h3,Option.bind_some,construct]
      cases fdCtorF S dir (some path) opts.fsync <;> rfl
    | sock np =>
      obtain ⟨h1,h2,h3,_⟩ := h
      rw [ctorSide,h1,h2,hfd,hfile,h3,Option.bind_some,construct]
      cases fdCtorS S dir np msgwait <;> rfl

/-- A side has something to use. -/
def Usable (S : Sys) (dir : Dir) (req : Option Endpoint) : Prop :=
  (∃ q,req=some q ∧ Constructible S dir q) ∨ Opens S dir (stdFd dir)

/-- What is requested for a side can be constructed, with its number kept. -/
def Served (S : Sys) (dir : Dir) (req : Option Endpoint) : Prop :=
  ∀ q,req=some q → Constructible S dir q ∧ Kept q

/-- A network endpoint that is asked for has a protocol. -/
theorem asksFor_dom {req : Option Endpoint} (h : AsksFor opts dir req) (hq : req=some q) :
    ∀ np,q=.sock np → np.dom≠0 := by
  rintro np rfl
  rw [hq] at h
  exact h.2.2.2

/-- A side without anything to use fails. -/
theorem ctorSide_fail {req : Option Endpoint} (h : AsksFor opts dir req)
    (hu : ¬Usable S dir req) : ctorSide S opts dir msgwait stdsync=none := by
  obtain ⟨hreq,hstd⟩ := not_or.mp hu
  rw [ctorSide_eq h,std_fail hstd,Option.or_none]
  cases hr : req with
  | none => rfl
  | some q => exact construct_fail fun hc => hreq ⟨q,hr,hc⟩

/-- Any other side succeeds, and has what was requested where that could be
constructed exactly when the request is served. -/
theorem ctorSide_ok (msgwait stdsync : Bool) {req : Option Endpoint}
    (h : AsksFor opts dir req) (hu : Usable S dir req) :
    ∃ p,ctorSide S opts dir msgwait stdsync=some p ∧
      (Meets S dir req p ∧ (∀ q,req=some q → Constructible S dir q) ↔ Served S dir req) := by
  rw [ctorSide_eq h]
  cases hr : req with
  | none =>
    have hstd : Opens S dir (stdFd dir) := hu.resolve_left fun ⟨q,hq,_⟩ => by
      rw [hr] at hq
      cases hq
    rw [Option.bind_none,Option.none_or,std_ok hstd]
    refine ⟨_,rfl,iff_of_true ⟨⟨rfl,rfl,rfl⟩,fun q hq => ?_⟩ fun q hq => ?_⟩
    · cases hq
    · cases hq
  | some q =>
    by_cases hc : Constructible S dir q
    · obtain ⟨p,hp,hmeets⟩ := construct_ok opts.fsync msgwait (asksFor_dom h hr) hc
      rw [Option.bind_some,hp,Option.some_or]
      refine ⟨p,rfl,?_⟩
      constructor
      · rintro ⟨hm,_⟩ q' hq'
        cases hq'
        exact ⟨hc,hmeets.mp hm⟩
      · intro hs
        refine ⟨hmeets.mpr (hs q rfl).2,fun q' hq' => (hs q' hq').1⟩
    · have hstd : Opens S dir (stdFd dir) := hu.resolve_left fun ⟨q',hq',hc'⟩ => by
        rw [hr] at hq'
        cases hq'
        exact hc hc'
      rw [Option.bind_some,construct_fail hc,Option.none_or,std_ok hstd]
      exact ⟨_,rfl,iff_of_false (fun hall => hc (hall.2 q rfl)) fun hs => hc (hs q rfl).1⟩

/-- After an accepted command line each side has its last request, and no request
is ever replaced, exactly when every request can be constructed with its number
kept, or some side has nothing to use and the setup fails. -/
theorem setup_fds_never_replaces (E : Env δ) (S : Dir → Sys) (args : List Opt)
    (opts : OptionsS δ) (h : optParse E args=some (.ok opts)) :
    (∀ dir,requested E.consts args dir=none ↔ lastArg (sideOpt dir) args=none) ∧
    (NeverReplaced S (requested E.consts args) (setupFds S opts) ↔
      (∃ dir,¬Usable (S dir) dir (requested E.consts args dir)) ∨
      ∀ dir,Served (S dir) dir (requested E.consts args dir)) := by
  refine ⟨fun dir => (optParse_requested h dir).2,?_⟩
  have hasks := fun dir => (optParse_requested h dir).1
  by_cases hu : ∀ dir,Usable (S dir) dir (requested E.consts args dir)
  · obtain ⟨fdi,hfdi,hi⟩ := ctorSide_ok (!opts.rline) false (hasks .inp) (hu .inp)
    obtain ⟨fdo,hfdo,ho⟩ := ctorSide_ok false opts.fsync (hasks .out) (hu .out)
    have hr : setupFds S opts=some (fdi,fdo) := by
      rw [setupFds,hfdi,Option.bind_some,hfdo]
      rfl
    have hnot : ¬∃ dir,¬Usable (S dir) dir (requested E.consts args dir) :=
      fun ⟨dir,hdir⟩ => hdir (hu dir)
    rw [or_iff_right hnot,hr,forall_dir,←hi,←ho]
    constructor
    · intro hn
      have hc : ∀ dir q,requested E.consts args dir=some q → Constructible (S dir) dir q :=
        fun dir q hq => by_contra fun hc => absurd (hn.refused dir q hq hc) (Option.some_ne_none _)
      obtain ⟨hm0,hm1⟩ := hn.used fdi fdo rfl
      exact ⟨⟨hm0,hc .inp⟩,hm1,hc .out⟩
    · rintro ⟨⟨hm0,hc0⟩,hm1,hc1⟩
      refine ⟨fun i o hio => ?_,fun dir q hq hc => ?_⟩
      · cases hio
        exact ⟨hm0,hm1⟩
      · have hall : ∀ dir q,requested E.consts args dir=some q → Constructible (S dir) dir q :=
          forall_dir.mpr ⟨hc0,hc1⟩
        exact absurd (hall dir q hq) hc
  · obtain ⟨dir,hdir⟩ := not_forall.mp hu
    have hr : setupFds S opts=none := by
      revert dir
      rw [forall_dir]
      refine ⟨fun h0 => ?_,fun h1 => ?_⟩
      · rw [setupFds,ctorSide_fail (hasks .inp) h0]
        rfl
      · rw [setupFds,ctorSide_fail (hasks .out) h1]
        exact Option.bind_eq_none_iff.mpr fun _ _ => rfl
    rw [hr]
    refine iff_of_true ⟨fun i o hio => ?_,fun _ _ _ _ => rfl⟩ (.inl ⟨dir,hdir⟩)
    cases hio

/-- A system with some descriptors open, and without hosts. -/
def opened (fds : List (BitVec 32)) : Sys where
  fcntl fd := if fd∈fds then some .rdwr else none
  pathconf _ := (4096,false)
  malloc := true
  gethostbyname _ := none

/-- Input from descriptor five. -/
def fromFive : List Opt := [.arg 'i' ⟨"d:5".toList,by decide⟩]

/-- The options with input from descriptor five. -/
def fiveOpts : OptionsS Unit := (unsetIn (setDefault linuxEnv)).record .inp (.fd ['5'])

/-- With the descriptor open the request is used. -/
theorem setup_fds_never_replaces_five : NeverReplaced (fun _ => opened [0,1,5])
    (requested linux fromFive) (setupFds (fun _ => opened [0,1,5]) fiveOpts) := by
  have hreq0 : requested linux fromFive .inp=some (.fd ['5']) := by decide
  have hreq1 : requested linux fromFive .out=none := by decide
  refine (setup_fds_never_replaces linuxEnv (fun _ => opened [0,1,5]) fromFive fiveOpts rfl).2.mpr
    (.inr (forall_dir.mpr ⟨fun q hq => ?_,fun q hq => ?_⟩))
  · change requested linux fromFive .inp=some q at hq
    rw [hreq0] at hq
    cases hq
    exact ⟨⟨by decide,.rdwr,by decide,by decide,by decide⟩,by unfold Kept; decide⟩
  · change requested linux fromFive .out=some q at hq
    rw [hreq1] at hq
    cases hq

/-- With the descriptor closed input is from the standard descriptor. -/
theorem setup_fds_replaces : optParse linuxEnv fromFive=some (.ok fiveOpts) ∧
    setupFds (fun _ => opened [0,1]) fiveOpts=
      some (⟨.fdfd,0,.inp,false⟩,⟨.fdfd,1,.out,false⟩) ∧
    ¬NeverReplaced (fun _ => opened [0,1]) (requested linux fromFive)
      (setupFds (fun _ => opened [0,1]) fiveOpts) := by
  have hr : setupFds (fun _ => opened [0,1]) fiveOpts=
      some (⟨.fdfd,0,.inp,false⟩,⟨.fdfd,1,.out,false⟩) := by decide
  refine ⟨rfl,hr,fun hn => ?_⟩
  obtain ⟨⟨_,_,_,hfd⟩,_⟩ := hn.used _ _ hr
  exact absurd hfd (by decide)

end Yancat.Endpoints
