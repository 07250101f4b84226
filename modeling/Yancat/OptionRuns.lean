import Yancat.ParseMeaning
import Yancat.Options

/-!
# Accepted command lines

What an accepted option does is said once: it gives a side an endpoint, or it
stores a size, or it leaves both alone. From this the last option of a kind
decides, over a whole command line: the endpoint that a side is left with and
the number in every size field. The ranges that the transfer relies on follow.
-/

namespace Yancat.OptionRuns

open Strings Common Parse WordArithmetic Options
open Setup (defMaxcnt defMaxblk defMaxhpage OptParse)

variable {δ : Type}

/-- The option that specifies a side. -/
def sideOpt : Dir → Char
  | .inp => 'i'
  | .out => 'o'

/-- The field that a size option stores. -/
def sizeField (opts : OptionsS δ) : Char → ℕ
  | 'n' => opts.rcnt
  | 'N' => opts.wcnt
  | 'b' => opts.rblk
  | 'B' => opts.wblk
  | 'm' => opts.bsiz
  | 'H' => opts.hpage
  | _ => 0

/-- The options with another size. -/
def setSize (opts : OptionsS δ) (v : ℕ) : Char → OptionsS δ
  | 'n' => {opts with rcnt := v}
  | 'N' => {opts with wcnt := v}
  | 'b' => {opts with rblk := v}
  | 'B' => {opts with wblk := v}
  | 'm' => {opts with bsiz := v}
  | 'H' => {opts with hpage := v}
  | _ => opts

/-- The range of a size option. -/
def sizeRange (E : Env δ) : Char → Option (ℕ×ℕ)
  | 'n' => some (1,defMaxcnt)
  | 'N' => some (1,defMaxcnt)
  | 'b' => some (1,defMaxblk)
  | 'B' => some (1,defMaxblk)
  | 'm' => some (E.page,(wordSize-1)/2)
  | 'H' => some (E.page,defMaxhpage)
  | _ => none

/-- The argument of an option of a kind. -/
def argOf (c : Char) : Opt → Option CString
  | .arg opt optarg => if opt=c then some optarg else none
  | .flag _ => none

/-- The argument of the last option of a kind. -/
def lastArg (c : Char) (args : List Opt) : Option CString := (args.filterMap (argOf c)).getLast?

/-- A side asks for an endpoint, or for none. -/
def AsksFor (opts : OptionsS δ) (dir : Dir) : Option Endpoint → Prop
  | none => opts.fd dir=none ∧ opts.file dir=none ∧ (opts.sock dir).dom=0
  | some (.fd t) => opts.fd dir=some t ∧ opts.file dir=none ∧ (opts.sock dir).dom=0
  | some (.file path) => opts.fd dir=none ∧ opts.file dir=some path ∧ (opts.sock dir).dom=0
  | some (.sock np) =>
    opts.fd dir=none ∧ opts.file dir=none ∧ opts.sock dir=np ∧ np.dom≠0

/-- What is left alone beside the endpoints and the sizes. -/
structure Beside (opts o : OptionsS δ) : Prop where
  /-- The descriptors stay. -/
  fd : o.fd=opts.fd
  /-- The files stay. -/
  file : o.file=opts.file
  /-- The network endpoints stay. -/
  sock : o.sock=opts.sock
  /-- The sizes stay. -/
  size : ∀ c,sizeField o c=sizeField opts c

/-- What an accepted option does. -/
inductive Accepted (E : Env δ) (opts : OptionsS δ) : Opt → OptionsS δ → Prop
  /-- A side gets an endpoint, and nothing else. -/
  | spec (dir : Dir) (s : CString) (q : Endpoint)
      (h : optSubspec E.consts s dir=some (.ok q)) :
      Accepted E opts (.arg (sideOpt dir) s) ((unset dir opts).record dir q)
  /-- A size is stored. -/
  | size (c : Char) (lo hi : ℕ) (s : CString) (v : ℕ) (hc : sizeRange E c=some (lo,hi))
      (h : optSize c lo hi s=.ok v) : Accepted E opts (.arg c s) (setSize opts v c)
  /-- Both are left alone. -/
  | beside (a : Opt) (o : OptionsS δ) (hside : ∀ dir,argOf (sideOpt dir) a=none)
      (hsize : ∀ c lo hi,sizeRange E c=some (lo,hi) → argOf c a=none) (h : Beside opts o) :
      Accepted E opts a o

variable {E : Env δ} {opts o : OptionsS δ} {args : List Opt} {a : Opt} {c opt : Char} {s : CString}
  {lo hi v : ℕ} {dir : Dir} {q : Endpoint}

/-- A result that was made from another comes from an accepted one. -/
theorem result_ok {ε α β : Type} {x : Option (Except ε α)} {f : α → β} {b : β}
    (h : x.map (Except.map f)=some (.ok b)) : ∃ a,x=some (.ok a) ∧ f a=b := by
  rcases x with _|_|a
  · cases h
  · cases h
  · exact ⟨a,rfl,Except.ok.inj (Option.some.inj h)⟩

/-- A result is accepted whatever its errors are turned into. -/
theorem mapError_ok {ε ε' α : Type} {x : Option (Except ε α)} {f : ε → ε'} {a : α}
    (h : x.map (Except.mapError f)=some (.ok a)) : x=some (.ok a) := by
  rcases x with _|_|a'
  · cases h
  · cases h
  · rw [show a'=a from Except.ok.inj (Option.some.inj h)]

/-- A value that was stored was accepted. -/
theorem map_ok {ε α β : Type} {x : Except ε α} {f : α → β} {b : β}
    (h : some (x.map f)=some (.ok b)) : ∃ a,x=.ok a ∧ f a=b := by
  obtain ⟨a,ha,hb⟩ := result_ok (x:=some x) h
  exact ⟨a,Option.some.inj ha,hb⟩

/-- A specification that was recorded was accepted. -/
theorem subparse_ok {C : SockConsts} {f : SpErr → OptErr}
    (h : (optSubparse C opts s dir).map (Except.mapError f)=some (.ok o)) :
    ∃ q,optSubspec C s dir=some (.ok q) ∧ opts.record dir q=o :=
  result_ok (mapError_ok h)

/-- An option whose letter is neither of a side nor of a size. -/
theorem Accepted.other (hin : opt≠ 'i') (hout : opt≠ 'o') (hs : sizeRange E opt=none)
    (h : Beside opts o) : Accepted E opts (.arg opt s) o := by
  refine .beside _ _ (fun dir => if_neg ?_) (fun c lo hi hc => if_neg ?_) h
  · cases dir with
    | inp => exact hin
    | out => exact hout
  · rintro rfl
    rw [hs] at hc
    cases hc

/-- What an accepted option with an argument does. -/
theorem optArg_accepted (h : optArg E opts opt s=some (.ok o)) :
    Accepted E opts (.arg opt s) o := by
  unfold optArg at h
  split at h
  · obtain ⟨v,hv,rfl⟩ := map_ok h
    exact .size 'n' _ _ s v rfl hv
  · obtain ⟨v,hv,rfl⟩ := map_ok h
    exact .size 'N' _ _ s v rfl hv
  · obtain ⟨q,hq,rfl⟩ := subparse_ok h
    exact .spec .inp s q hq
  · obtain ⟨q,hq,rfl⟩ := subparse_ok h
    exact .spec .out s q hq
  · obtain ⟨v,hv,rfl⟩ := map_ok h
    exact .size 'b' _ _ s v rfl hv
  · obtain ⟨v,hv,rfl⟩ := map_ok h
    exact .size 'B' _ _ s v rfl hv
  · obtain ⟨v,hv,rfl⟩ := map_ok h
    exact .size 'm' _ _ s v rfl hv
  · obtain ⟨v,hv,rfl⟩ := map_ok h
    exact .size 'H' _ _ s v rfl hv
  · obtain ⟨v,_,rfl⟩ := map_ok h
    exact .other (by decide) (by decide) rfl ⟨rfl,rfl,rfl,fun _ => rfl⟩
  · obtain ⟨v,_,rfl⟩ := map_ok h
    exact .other (by decide) (by decide) rfl ⟨rfl,rfl,rfl,fun _ => rfl⟩
  · split at h
    · obtain ⟨v,_,rfl⟩ := map_ok h
      exact .other (by decide) (by decide) rfl ⟨rfl,rfl,rfl,fun _ => rfl⟩
    · cases h
  · split at h
    · obtain ⟨v,_,rfl⟩ := map_ok h
      exact .other (by decide) (by decide) rfl ⟨rfl,rfl,rfl,fun _ => rfl⟩
    · cases h
  · cases h

/-- What an accepted option without an argument does. -/
theorem optFlag_accepted (h : optFlag E opts opt=.ok o) : Accepted E opts (.flag opt) o := by
  have hbeside : Beside opts o := by
    unfold optFlag at h
    split at h
    · cases h
      exact ⟨rfl,rfl,rfl,fun _ => rfl⟩
    · split at h
      · cases h
        exact ⟨rfl,rfl,rfl,fun _ => rfl⟩
      · cases h
    all_goals cases h
    all_goals exact ⟨rfl,rfl,rfl,fun _ => rfl⟩
  exact .beside _ _ (fun _ => rfl) (fun _ _ _ _ => rfl) hbeside

/-- What an accepted option does. -/
theorem optStep_accepted (h : optStep E opts a=some (.ok o)) : Accepted E opts a o := by
  cases a with
  | arg opt optarg => exact optArg_accepted h
  | flag opt => exact optFlag_accepted (Option.some.inj h)

/-- A loop that accepts a command line accepts its first option and the rest. -/
theorem optLoop_cons (h : optLoop E opts (a::args)=some (.ok o)) :
    ∃ o1,Accepted E opts a o1 ∧ optLoop E o1 args=some (.ok o) := by
  rw [optLoop] at h
  rcases hs : optStep E opts a with _|_|o1
  · rw [hs] at h
    cases h
  · rw [hs] at h
    cases h
  · rw [hs] at h
    exact ⟨o1,optStep_accepted hs,h⟩

/-- A command line that is accepted has been through the loop. -/
theorem optParse_ok (h : optParse E args=some (.ok o)) :
    optLoop E (setDefault E) args=some (.ok o) ∧ ¬(o.wline=true ∧ o.strict=true) := by
  rw [optParse] at h
  rcases hl : optLoop E (setDefault E) args with _|_|o1
  · rw [hl] at h
    cases h
  · rw [hl] at h
    cases h
  · rw [hl,Option.map_some] at h
    by_cases hs : o1.wline=true ∧ o1.strict=true
    · dsimp only at h
      rw [if_pos hs] at h
      cases h
    · dsimp only at h
      rw [if_neg hs] at h
      cases h
      exact ⟨rfl,hs⟩

/-- The last option of a kind is the last of the rest, or the first. -/
theorem lastArg_cons (c : Char) (a : Opt) (args : List Opt) :
    lastArg c (a::args)=(lastArg c args).or (argOf c a) := by
  rw [lastArg,lastArg,List.filterMap_cons]
  cases argOf c a with
  | none => exact Option.or_none.symm
  | some s =>
    dsimp only
    rw [List.getLast?_cons]
    cases (args.filterMap (argOf c)).getLast? <;> rfl

/-- A size field after an option of its kind, if there was one. -/
def Stored (c : Char) (lo hi before : ℕ) : Option CString → ℕ → Prop
  | none,after => after=before
  | some s,after => optSize c lo hi s=.ok after

/-- A stored size is in its field. -/
theorem sizeField_setSize_self (h : sizeRange E c=some (lo,hi)) :
    sizeField (setSize opts v c) c=v := by
  unfold sizeRange at h
  split at h
  all_goals first | rfl | cases h

/-- A stored size leaves the other fields alone. -/
theorem sizeField_setSize_ne (h : c≠opt) :
    sizeField (setSize opts v opt) c=sizeField opts c := by
  unfold setSize
  split
  all_goals unfold sizeField
  all_goals split
  all_goals first | rfl | exact absurd rfl h

/-- An accepted option of a kind stores its size, any other leaves it alone. -/
theorem Accepted.stored (h : Accepted E opts a o) (hc : sizeRange E c=some (lo,hi)) :
    Stored c lo hi (sizeField opts c) (argOf c a) (sizeField o c) := by
  cases h with
  | spec dir s q hq =>
    have hne : sideOpt dir≠c := by
      rintro rfl
      cases dir <;> cases hc
    rw [argOf,if_neg hne]
    cases q <;> rfl
  | size c' lo' hi' s v hc' hv =>
    rw [argOf]
    by_cases he : c'=c
    · subst he
      rw [hc] at hc'
      cases hc'
      rw [if_pos rfl,sizeField_setSize_self hc]
      exact hv
    · rw [if_neg he]
      exact sizeField_setSize_ne (Ne.symm he)
  | beside a o _ hsize hb =>
    rw [hsize c lo hi hc]
    exact hb.size c

/-- A size field after a command line is that of the last option of its kind. -/
theorem optLoop_stored (h : optLoop E opts args=some (.ok o)) (hc : sizeRange E c=some (lo,hi)) :
    Stored c lo hi (sizeField opts c) (lastArg c args) (sizeField o c) := by
  induction args generalizing opts with
  | nil =>
    cases h
    rfl
  | cons a args ih =>
    obtain ⟨o1,ha,hrest⟩ := optLoop_cons h
    have hfirst := ha.stored hc
    have hlast := ih hrest
    rw [lastArg_cons]
    cases hl : lastArg c args with
    | none =>
      rw [hl] at hlast
      rw [Option.none_or,show sizeField o c=sizeField o1 c from hlast]
      exact hfirst
    | some s =>
      rw [hl] at hlast
      exact hlast

/-- An accepted size is in its range, and what was converted. -/
theorem optSize_ok (h : optSize c lo hi s=.ok v) :
    (getUl s.chars).2=none ∧ (getUl s.chars).1=v ∧ lo ≤ v ∧ v ≤ hi := by
  rw [optSize] at h
  split at h
  · cases h
  · next hn =>
    cases h
    rw [not_or,not_or,not_not,not_lt,not_lt] at hn
    exact ⟨hn.1,rfl,hn.2⟩

/-- The endpoint of a side after a specification for it, if there was one. -/
def Sided (C : SockConsts) (dir : Dir) (before : Option Endpoint) :
    Option CString → Option Endpoint → Prop
  | none,after => after=before
  | some s,after => ∃ q,optSubspec C s dir=some (.ok q) ∧ after=some q

/-- A network endpoint has a protocol. -/
theorem spAddrParse_dom {C : SockConsts} {fuel off dom proto : ℕ} {np : NetpntS}
    (hf : s.size<fuel) (hproto : spDom C dom=some proto) (hne : proto≠0)
    (h : spAddrParse C s fuel off dom=some (.ok np)) : np.dom≠0 := by
  have hdom := (spAddrParse_meaning hf hproto h).2.dom
  rw [hproto] at hdom
  rw [←Option.some.inj hdom]
  exact hne

/-- A network endpoint that a specification asks for has a protocol. -/
theorem optSubspec_sock {C : SockConsts} {np : NetpntS}
    (h : optSubspec C s dir=some (.ok (.sock np))) : np.dom≠0 := by
  rw [optSubspec] at h
  generalize (if 2<s.size then 2 else s.size)=len2 at h
  split at h
  · obtain ⟨np',hp,hq⟩ := result_ok h
    cases hq
    exact spAddrParse_dom (Nat.lt_succ_self _) rfl C.tcp_ne hp
  split at h
  · obtain ⟨np',hp,hq⟩ := result_ok h
    cases hq
    exact spAddrParse_dom (Nat.lt_succ_self _) rfl C.udp_ne hp
  · obtain ⟨c,_,h⟩ := Option.bind_eq_some_iff.mp h
    split at h
    · obtain ⟨c1,_,h⟩ := Option.bind_eq_some_iff.mp h
      obtain ⟨t,_,h⟩ := Option.map_eq_some_iff.mp h
      cases h
    split at h
    · cases h
    · obtain ⟨t,_,h⟩ := Option.map_eq_some_iff.mp h
      cases h

/-- The side that a specification is for. -/
theorem sideOpt_inj {d1 d2 : Dir} (h : sideOpt d1=sideOpt d2) : d1=d2 := by
  cases d1 <;> cases d2 <;> first | rfl | exact absurd h (by decide)

/-- A specification replaces what its side asks for. -/
theorem asksFor_record (hq : ∀ np,q=.sock np → np.dom≠0) :
    AsksFor ((unset dir opts).record dir q) dir (some q) := by
  have hupd : ∀ {α : Type} (f : Dir → α) (x : α),Function.update f dir x dir=x :=
    fun f x => Function.update_self ..
  cases q with
  | fd t => exact ⟨hupd _ _,hupd _ _,congrArg NetpntS.dom (hupd _ _)⟩
  | file path => exact ⟨hupd _ _,hupd _ _,congrArg NetpntS.dom (hupd _ _)⟩
  | sock np => exact ⟨hupd _ _,hupd _ _,hupd _ _,hq np rfl⟩

/-- What a side asks for is read from its three fields. -/
theorem asksFor_congr {before : Option Endpoint} (h : AsksFor opts dir before)
    (hfd : o.fd dir=opts.fd dir) (hfile : o.file dir=opts.file dir)
    (hsock : o.sock dir=opts.sock dir) : AsksFor o dir before := by
  rcases before with _|q
  · rw [AsksFor,hfd,hfile,hsock]
    exact h
  · cases q <;> rw [AsksFor,hfd,hfile,hsock] <;> exact h

/-- A specification leaves the other side alone. -/
theorem asksFor_other {before : Option Endpoint} {d : Dir} (hd : d≠dir)
    (h : AsksFor opts d before) : AsksFor ((unset dir opts).record dir q) d before := by
  have hupd : ∀ {α : Type} (f : Dir → α) (x : α),Function.update f dir x d=f d :=
    fun f x => Function.update_of_ne hd ..
  cases q with
  | fd t => exact asksFor_congr h ((hupd _ _).trans (hupd _ _)) (hupd _ _) (hupd _ _)
  | file path => exact asksFor_congr h (hupd _ _) ((hupd _ _).trans (hupd _ _)) (hupd _ _)
  | sock np => exact asksFor_congr h (hupd _ _) (hupd _ _) ((hupd _ _).trans (hupd _ _))

/-- An accepted specification decides for its side, any other option leaves it. -/
theorem Accepted.sided {before : Option Endpoint} (h : Accepted E opts a o)
    (hb : AsksFor opts dir before) :
    ∃ after,Sided E.consts dir before (argOf (sideOpt dir) a) after ∧ AsksFor o dir after := by
  cases h with
  | spec d s q hq =>
    rw [argOf]
    by_cases he : d=dir
    · subst he
      rw [if_pos rfl]
      refine ⟨some q,⟨q,hq,rfl⟩,asksFor_record fun np hnp => ?_⟩
      rw [hnp] at hq
      exact optSubspec_sock hq
    · rw [if_neg fun h => he (sideOpt_inj h)]
      exact ⟨before,rfl,asksFor_other (Ne.symm he) hb⟩
  | size c lo hi s v hc hv =>
    have hne : c≠sideOpt dir := by
      rintro rfl
      cases dir <;> cases hc
    rw [argOf,if_neg hne]
    refine ⟨before,rfl,?_⟩
    unfold setSize
    split <;> exact asksFor_congr hb rfl rfl rfl
  | beside a o hside _ hbes =>
    rw [hside dir]
    exact ⟨before,rfl,asksFor_congr hb (congrFun hbes.fd dir) (congrFun hbes.file dir)
      (congrFun hbes.sock dir)⟩

/-- After a command line the last specification of a side has decided for it. -/
theorem optLoop_sided {before : Option Endpoint} (h : optLoop E opts args=some (.ok o))
    (hb : AsksFor opts dir before) :
    ∃ after,Sided E.consts dir before (lastArg (sideOpt dir) args) after ∧ AsksFor o dir after := by
  induction args generalizing opts before with
  | nil =>
    cases h
    exact ⟨before,rfl,hb⟩
  | cons a args ih =>
    obtain ⟨o1,ha,hrest⟩ := optLoop_cons h
    obtain ⟨mid,hmid,hasks⟩ := ha.sided hb
    obtain ⟨after,hafter,hdone⟩ := ih hrest hasks
    refine ⟨after,?_,hdone⟩
    rw [lastArg_cons]
    cases hl : lastArg (sideOpt dir) args with
    | none =>
      rw [hl] at hafter
      rw [Option.none_or,show after=mid from hafter]
      exact hmid
    | some s =>
      rw [hl] at hafter
      exact hafter

/-- The endpoint that a command line requests for a side: that of the last
specification given for it. -/
def requested (C : SockConsts) (args : List Opt) (dir : Dir) : Option Endpoint :=
  (lastArg (sideOpt dir) args).bind fun s =>
    match optSubspec C s dir with
    | some (.ok q) => some q
    | _ => none

/-- An accepted command line leaves each side with what was requested for it, and
every last specification requests something. -/
theorem optParse_requested (h : optParse E args=some (.ok o)) (dir : Dir) :
    AsksFor o dir (requested E.consts args dir) ∧
      (requested E.consts args dir=none ↔ lastArg (sideOpt dir) args=none) := by
  obtain ⟨hloop,_⟩ := optParse_ok h
  have hnothing : AsksFor (setDefault E) dir none := ⟨rfl,rfl,rfl⟩
  obtain ⟨after,hafter,hdone⟩ := optLoop_sided hloop hnothing
  rw [requested]
  cases hl : lastArg (sideOpt dir) args with
  | none =>
    rw [hl] at hafter
    cases hafter
    exact ⟨hdone,iff_of_true rfl rfl⟩
  | some s =>
    rw [hl] at hafter
    obtain ⟨q,hq,rfl⟩ := hafter
    rw [Option.bind_some,hq]
    exact ⟨hdone,iff_of_false (Option.some_ne_none _) (Option.some_ne_none _)⟩

/-- The number in a size field of an accepted command line: the default, or one in
the range of the option. -/
theorem optParse_stored (h : optParse E args=some (.ok o)) (hc : sizeRange E c=some (lo,hi)) :
    Stored c lo hi (sizeField (setDefault E) c) (lastArg c args) (sizeField o c) :=
  optLoop_stored (optParse_ok h).1 hc

/-- A size field is in the range of its option, or has its default. -/
theorem Stored.range {before after : ℕ} {last : Option CString}
    (h : Stored c lo hi before last after) : after=before ∨ lo ≤ after ∧ after ≤ hi := by
  cases last with
  | none => exact .inl h
  | some s => exact .inr (optSize_ok h).2.2

/-- The options of the transfer, with the resume points that the setup makes of
the two numbers. -/
def transfer (opts : OptionsS δ) (rsp wsp : ℕ) : Setup.OptionsS where
  bsiz := opts.bsiz
  rblk := opts.rblk
  rcnt := opts.rcnt
  wblk := opts.wblk
  wcnt := opts.wcnt
  rsp := rsp
  wsp := wsp
  hpage := opts.hpage
  strict := opts.strict
  rline := opts.rline
  wline := opts.wline
  rcrc := opts.rcrc
  wcrc := opts.wcrc

/-- An accepted command line is in the ranges that the transfer relies on. -/
theorem optParse_ranges (h : optParse E args=some (.ok o)) (rsp wsp : ℕ) :
    OptParse (transfer o rsp wsp) := by
  have hn := (optParse_stored h (show sizeRange E 'n'=some (1,defMaxcnt) from rfl)).range
  have hN := (optParse_stored h (show sizeRange E 'N'=some (1,defMaxcnt) from rfl)).range
  have hb := (optParse_stored h (show sizeRange E 'b'=some (1,defMaxblk) from rfl)).range
  have hB := (optParse_stored h (show sizeRange E 'B'=some (1,defMaxblk) from rfl)).range
  have hm := (optParse_stored h (show sizeRange E 'm'=some (E.page,(wordSize-1)/2) from rfl)).range
  have hH := (optParse_stored h (show sizeRange E 'H'=some (E.page,defMaxhpage) from rfl)).range
  change o.rcnt=1 ∨ 1 ≤ o.rcnt ∧ o.rcnt ≤ 1048576 at hn
  change o.wcnt=1 ∨ 1 ≤ o.wcnt ∧ o.wcnt ≤ 1048576 at hN
  change o.rblk=65536 ∨ 1 ≤ o.rblk ∧ o.rblk ≤ 4194304 at hb
  change o.wblk=65536 ∨ 1 ≤ o.wblk ∧ o.wblk ≤ 4194304 at hB
  change o.bsiz=4194304 ∨ E.page ≤ o.bsiz ∧ o.bsiz ≤ (wordSize-1)/2 at hm
  change o.hpage=0 ∨ E.page ≤ o.hpage ∧ o.hpage ≤ 256*1048576 at hH
  rw [wordSize_eq] at hm
  constructor
  case bsiz_le =>
    rw [wordSize_eq]
    change o.bsiz ≤ _
    omega
  case strict_block => exact (optParse_ok h).2
  case rblk_pos => change 1 ≤ o.rblk; omega
  case rblk_le => change o.rblk ≤ 4194304; omega
  case wblk_pos => change 1 ≤ o.wblk; omega
  case wblk_le => change o.wblk ≤ 4194304; omega
  case rcnt_pos => change 1 ≤ o.rcnt; omega
  case rcnt_le => change o.rcnt ≤ 1048576; omega
  case wcnt_pos => change 1 ≤ o.wcnt; omega
  case wcnt_le => change o.wcnt ≤ 1048576; omega
  case hpage_le => change o.hpage ≤ 256*1048576; omega

end Yancat.OptionRuns
