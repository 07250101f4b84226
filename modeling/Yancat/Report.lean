import Yancat.Decimal
import Yancat.Endpoints

/-!
# Reports of endpoints

What `fd_info` prints about an endpoint, and that its fields are all there is to
say: every option of a socket has a name, and the canonical specification that the
fields make up is one from which the same endpoint is parsed again.
-/

namespace Yancat.Report

open Strings Common Parse Options Fdpack WordArithmetic

/-- `sp_getsobyint`: the name of an option. -/
def spGetsobyint (C : SockConsts) (opt lvl : ℕ) : Option (List Char) :=
  ((optsByStr C).find? fun o => o.opt≠0 && (o.opt==opt && o.lvl==lvl)).map StroptsS.name

/-- What is printed of an option, unless it has no name. -/
def optionText (C : SockConsts) (e : NoptsS) : Option (List Char) :=
  (spGetsobyint C e.opt e.lvl).map fun str => str++ '='::printInt e.val.toInt

/-- What is printed of the options. -/
def optionTexts (C : SockConsts) (opts : List NoptsS) : List (List Char) :=
  opts.filterMap (optionText C)

/-- The name of a type. -/
def kind : FdtypeS → List Char
  | .fdfd => "fd".toList
  | .fdfile _ => "file".toList
  | .fdsock _ _ _ => "socket".toList

/-- `fd_info_`. -/
def fdInfo_ (fd : FdpackS) : List Char :=
  "  type:  ".toList++kind fd.type++"\n  dir:   ".toList++
    (if fd.dir=.out then "output".toList else "input".toList)++"\n  fd:    ".toList++
    printInt fd.fd.toInt++"\n".toList

/-- `fd_info_f`. -/
def fdInfoF (fd : FdpackS) (path : List Char) : List Char :=
  fdInfo_ fd++"  path:  ".toList++path++"\n".toList

/-- The loop of `fd_info_s` over the options. -/
def optionLine (C : SockConsts) (opts : List NoptsS) : List Char :=
  if optionTexts C opts=[] then []
  else "   ".toList++List.intercalate ", ".toList (optionTexts C opts)++"\n".toList

/-- `fd_info_s`, with what `inet_ntoa` makes of an address. -/
def fdInfoS (C : SockConsts) (ntoa : BitVec 32 → Option (List Char)) (fd : FdpackS)
    (saddr : SockaddrIn) (np : NetpntS) : List Char :=
  fdInfo_ fd++"  host:  ".toList++np.host++" (".toList++(ntoa saddr.addr).getD ['?']++
    ")\n  port:  ".toList++printNat np.port.toNat++"\n  proto: ".toList++printNat np.dom++
    "\n  options (".toList++printNat np.opts.length++"):\n".toList++optionLine C np.opts

/-- `fd_info`. -/
def fdInfo (C : SockConsts) (ntoa : BitVec 32 → Option (List Char)) (fd : FdpackS) : List Char :=
  match fd.type with
  | .fdfd => fdInfo_ fd
  | .fdfile path => fdInfoF fd path
  | .fdsock saddr np _ => fdInfoS C ntoa fd saddr np

/-- The reported fields of a socket, as a specification. -/
def specText (C : SockConsts) (np : NetpntS) : List Char :=
  np.host++ ':'::(printNat np.port.toNat++ ':'::List.intercalate [','] (optionTexts C np.opts))

/-- An endpoint as a specification with its prefix. -/
def canonical (C : SockConsts) : Endpoint → List Char
  | .fd t => 'd':: ':'::t
  | .file path => 'f':: ':'::path
  | .sock np => (if np.dom=C.ipprotoTcp then 't' else 'u'):: ':'::specText C np

variable {C : SockConsts} {e : NoptsS} {opts pre : List NoptsS} {o : ℕ×ℕ}

/-- The names of the options. -/
def optNames : List (List Char) :=
  ["IP_TOS".toList,"SO_REUSEADDR".toList,"SO_SNDBUF".toList,"SO_RCVBUF".toList,
   "TCP_MAXSEG".toList,"TCP_NODELAY".toList]

/-- The table has them whatever the system defines. -/
theorem map_name (C : SockConsts) : (optsByStr C).map StroptsS.name=optNames := rfl

/-- A name is short, and no separator is in it. -/
structure Plain (t : List Char) : Prop where
  /-- It is not empty. -/
  ne_nil : t≠[]
  /-- It fits where names are copied to. -/
  short : t.length<soptLen
  /-- It has no value. -/
  eq : '='∉t
  /-- It is a single item. -/
  comma : ','∉t
  /-- It is text. -/
  text : nul∉t

/-- All names are such. -/
theorem plain_of_mem {t : List Char} (h : t∈optNames) : Plain t := by
  have hall : ∀ t∈optNames,t≠[] ∧ t.length<soptLen ∧ '='∉t ∧ ','∉t ∧ nul∉t := by decide
  obtain ⟨h1,h2,h3,h4,h5⟩ := hall t h
  exact ⟨h1,h2,h3,h4,h5⟩

/-- An entry of the table is found by its own name only. -/
theorem strcaseeq_name {a b : StroptsS} (ha : a∈optsByStr C) (hb : b∈optsByStr C)
    (h : strcaseeq a.name b.name=true) : a=b := by
  have hnodup : ((optsByStr C).map fun e => e.name.map Char.toLower).Nodup := by
    have hmap : ((optsByStr C).map fun e => e.name.map Char.toLower)=
        optNames.map (List.map Char.toLower) := rfl
    rw [hmap]
    decide
  exact List.inj_on_of_nodup_map hnodup ha hb (beq_iff_eq.mp h)

/-- The name of an option of the system leads to the option. -/
theorem spGetsobystr_name {a : StroptsS} (ha : a∈optsByStr C) (hz : a.opt≠0) :
    spGetsobystr C a.name=some (a.opt,a.lvl) := by
  have hin : a.name∈optNames := map_name C ▸ List.mem_map_of_mem ha
  have hself : (decide (a.opt≠0) && strcaseeq a.name a.name)=true := by
    rw [Bool.and_eq_true,decide_eq_true_iff]
    exact ⟨hz,beq_self_eq_true _⟩
  rw [spGetsobystr,if_neg (plain_of_mem hin).ne_nil]
  cases hf : (optsByStr C).find? fun b => decide (b.opt≠0) && strcaseeq a.name b.name with
  | none => exact absurd hself (List.find?_eq_none.mp hf a ha)
  | some b =>
    have hb := List.find?_some hf
    rw [Bool.and_eq_true] at hb
    rw [strcaseeq_name ha (List.mem_of_find?_eq_some hf) hb.2]
    rfl

/-- A known option of the system has a name, which leads back to it. -/
theorem spGetsobyint_named (hz : o.1≠0) (hk : o∈knownKeys C) :
    ∃ str,spGetsobyint C o.1 o.2=some str ∧ spGetsobystr C str=some o ∧ Plain str := by
  obtain ⟨a,ha,rfl⟩ := List.mem_map.mp hk
  have hself : (decide (a.opt≠0) && (a.opt==a.opt && a.lvl==a.lvl))=true := by
    rw [Bool.and_eq_true,decide_eq_true_iff,beq_self_eq_true,beq_self_eq_true]
    exact ⟨hz,rfl⟩
  rw [spGetsobyint]
  cases hf : (optsByStr C).find? fun b =>
      decide (b.opt≠0) && (b.opt==a.opt && b.lvl==a.lvl) with
  | none => exact absurd hself (List.find?_eq_none.mp hf a ha)
  | some b =>
    have hb := List.find?_some hf
    rw [Bool.and_eq_true,Bool.and_eq_true,decide_eq_true_iff,beq_iff_eq,beq_iff_eq] at hb
    obtain ⟨hbz,hopt,hlvl⟩ := hb
    have hmem := List.mem_of_find?_eq_some hf
    have hin : b.name∈optNames := map_name C ▸ List.mem_map_of_mem hmem
    refine ⟨b.name,rfl,?_,plain_of_mem hin⟩
    rw [spGetsobystr_name hmem hbz,hopt,hlvl]

/-- What is printed of a number is no letter. -/
theorem printInt_low {x : ℤ} {c : Char} (h : c∈printInt x) : c.toNat<65 := by
  rcases mem_printInt h with rfl|hd
  · decide
  · rw [Char.isDigit,Bool.and_eq_true,decide_eq_true_iff,decide_eq_true_iff] at hd
    have hle : c.toNat ≤ 57 := hd.2
    omega

/-- A number is not the name of a value. -/
theorem strcaseeq_number {x : ℤ} {b : StrvalsS} (hb : b∈valsByStr C) :
    strcaseeq (printInt x) b.name=false := by
  have hall : ∀ t∈(valsByStr C).map StrvalsS.name,'i'∈t.map Char.toLower := by
    change ∀ t∈["IPTOS_LOWDELAY".toList,"IPTOS_THROUGHPUT".toList,"IPTOS_RELIABILITY".toList,
      "IPTOS_LOWCOST".toList],'i'∈t.map Char.toLower
    decide
  by_contra hc
  have heq := beq_iff_eq.mp (Bool.eq_true_of_not_eq_false hc)
  have hi := hall _ (List.mem_map_of_mem hb)
  rw [←heq] at hi
  obtain ⟨c,hmem,hlow⟩ := List.mem_map.mp hi
  have hlt := printInt_low hmem
  rw [(toLower_eq_iff hlt).mpr rfl] at hlow
  rw [hlow] at hlt
  exact absurd hlt (by decide)

/-- A word is what it is read back as when it is printed as a number. -/
theorem ofNat_emod (v : BitVec 32) : BitVec.ofNat 32 (v.toInt%wordSize).toNat=v := by
  have hlt := v.isLt
  apply BitVec.eq_of_toNat_eq
  rw [BitVec.toNat_ofNat,BitVec.toInt_eq_toNat_cond,wordSize_eq]
  split <;> omega

/-- A printed value is read back. -/
theorem spGetvalbystr_printInt (C : SockConsts) (v : BitVec 32) :
    spGetvalbystr C (printInt v.toInt)=v := by
  have hnone : (valsByStr C).find? (fun b => decide (b.val≠0) &&
      strcaseeq (printInt v.toInt) b.name)=none := by
    rw [List.find?_eq_none]
    intro b hb
    rw [strcaseeq_number hb,Bool.and_false]
    exact Bool.false_ne_true
  have hsmall : v.toInt.natAbs<wordSize := by
    have hlt := v.isLt
    rw [BitVec.toInt_eq_toNat_cond,wordSize_eq]
    split <;> omega
  have hends : EndsNumber [] := fun c hc => by cases hc
  have hread := strtoul_printInt hsmall hends
  rw [List.append_nil] at hread
  rw [spGetvalbystr,if_neg (printInt_ne_nil _),hnone]
  dsimp only
  rw [getUl,hread]
  exact ofNat_emod v

/-- A printed value is short. -/
theorem printInt_short (v : BitVec 32) : (printInt v.toInt).length<soptLen := by
  have hsmall : v.toInt.natAbs<10^10 := by
    have hlt := v.isLt
    rw [BitVec.toInt_eq_toNat_cond]
    split <;> omega
  exact (printInt_length (by decide) hsmall).trans_lt (by decide)

/-- No separator is printed. -/
theorem notMem_printInt {x : ℤ} {c : Char} (hd : c.isDigit=false) (hm : c≠ '-') :
    c∉printInt x := by
  intro h
  refine (mem_printInt h).elim hm fun hc => ?_
  rw [hd] at hc
  cases hc

/-- An option of the system is printed as an item that is read as the option. -/
theorem optionText_read (hz : e.opt≠0) (hk : e.key∈knownKeys C) : ∃ t,optionText C e=some t ∧
    refItem C t=.ok (e.key,e.val) ∧ t≠[] ∧ ','∉t ∧ nul∉t := by
  obtain ⟨str,hname,hback,hplain⟩ := spGetsobyint_named (o:=e.key) hz hk
  have hvalue : refVals C (itemPieces (str++ '='::printInt e.val.toInt)) 0=.ok e.val := by
    rw [itemPieces,past_cut hplain.eq,
      List.splitOn_eq_singleton (notMem_printInt (by decide) (by decide)),refVals,
      if_neg (Nat.not_le.mpr (printInt_short e.val)),spGetvalbystr_printInt,refVals]
    exact congrArg Except.ok BitVec.zero_or
  refine ⟨_,by rw [optionText,show spGetsobyint C e.opt e.lvl=some str from hname]; rfl,?_,?_,?_,?_⟩
  · rw [refItem,if_pos (List.mem_append_right _ List.mem_cons_self),hvalue,itemName,
      upTo_cut hplain.eq]
    dsimp only
    rw [refName,if_neg (Nat.not_le.mpr hplain.short),hback]
  · exact List.append_ne_nil_of_right_ne_nil _ (List.cons_ne_nil _ _)
  · rw [List.mem_append,List.mem_cons,not_or,not_or]
    exact ⟨hplain.comma,by decide,notMem_printInt (by decide) (by decide)⟩
  · rw [List.mem_append,List.mem_cons,not_or,not_or]
    exact ⟨hplain.text,by decide,notMem_printInt (by decide) (by decide)⟩

/-- A table as a parse leaves it: its options are those of the system, each once, and
the defaults are among them. -/
structure Settled (C : SockConsts) (dom : ℕ) (opts : List NoptsS) : Prop where
  /-- The table is well formed. -/
  table : TableOk C opts
  /-- The system has its options. -/
  nonzero : ∀ e∈opts,e.opt≠0
  /-- The defaults are in it. -/
  defaults : ∀ d∈defaults C dom,d.1.1≠0 → d.1∈opts.map NoptsS.key

/-- A value is assigned behind a table that does not have its key. -/
theorem assign_fresh (h : e.key∉pre.map NoptsS.key) : assign e.key e.val true pre=pre++[e] := by
  induction pre with
  | nil => rfl
  | cons e' es ih =>
    rw [List.map_cons,List.mem_cons,not_or] at h
    rw [assign,if_neg (Ne.symm h.1),ih h.2,List.cons_append]

/-- An assignment that does not replace leaves a table alone that has the key. -/
theorem assign_kept {val : BitVec 32} (h : o∈opts.map NoptsS.key) :
    assign o val false opts=opts := by
  induction opts with
  | nil => cases h
  | cons e es ih =>
    rw [assign]
    by_cases he : e.key=o
    · rw [if_pos he,if_neg Bool.false_ne_true]
    · rw [if_neg he,ih ((List.mem_cons.mp h).resolve_left (Ne.symm he))]

/-- The printed options are items, one for each. -/
theorem optionTexts_items (hz : ∀ e∈opts,e.opt≠0) (hk : opts.map NoptsS.key⊆knownKeys C) :
    (optionTexts C opts).length=opts.length ∧
      ∀ t∈optionTexts C opts,t≠[] ∧ ','∉t ∧ nul∉t := by
  induction opts with
  | nil => exact ⟨rfl,fun t ht => by cases ht⟩
  | cons e es ih =>
    obtain ⟨t,ht,_,hne,hcomma,hnul⟩ :=
      optionText_read (hz e List.mem_cons_self) (hk List.mem_cons_self)
    obtain ⟨hlen,hitems⟩ := ih (fun e he => hz e (List.mem_cons_of_mem _ he))
      fun k hk' => hk (List.mem_cons_of_mem _ hk')
    rw [optionTexts,List.filterMap_cons_some ht]
    refine ⟨congrArg (·+1) hlen,fun u hu => ?_⟩
    rcases List.mem_cons.mp hu with rfl|hu
    · exact ⟨hne,hcomma,hnul⟩
    · exact hitems u hu

/-- They are read into the table that they were printed from. -/
theorem refItems_texts (pre : List NoptsS) (hz : ∀ e∈opts,e.opt≠0) (ht : TableOk C (pre++opts)) :
    refItems C (optionTexts C opts) pre=.ok (pre++opts) := by
  induction opts generalizing pre with
  | nil => rw [List.append_nil]; rfl
  | cons e es ih =>
    have hin : e.key∈(pre++e::es).map NoptsS.key :=
      List.mem_map_of_mem (List.mem_append_right _ List.mem_cons_self)
    obtain ⟨t,htext,hread,_⟩ := optionText_read (hz e List.mem_cons_self) (ht.known hin)
    have hfresh : e.key∉pre.map NoptsS.key := by
      have hnodup := ht.nodup
      rw [List.map_append,List.nodup_append] at hnodup
      exact fun h => hnodup.2.2 _ h _ (List.mem_cons_self) rfl
    have hsplit : pre++e::es=pre++[e]++es := by rw [List.append_assoc]; rfl
    rw [hsplit] at ht ⊢
    rw [optionTexts,List.filterMap_cons_some htext,refItems,hread]
    dsimp only
    rw [assign_fresh hfresh]
    exact ih _ (fun e he => hz e (List.mem_cons_of_mem _ he)) ht

/-- A default that is there is not added. -/
theorem Settled.keep {dom : ℕ} (h : Settled C dom opts) {d : (ℕ×ℕ)×BitVec 32}
    (hd : d∈Parse.defaults C dom) : spAddsobyint opts d.1.1 d.1.2 d.2 false=some opts := by
  by_cases hz : d.1.1=0
  · exact if_pos hz
  · rw [spAddsobyint_eq hz h.table.length_lt,assign_kept (h.defaults d hd hz)]

/-- The defaults leave such a table alone. -/
theorem Settled.spAddsodefs {dom : ℕ} (h : Settled C dom opts) :
    Parse.spAddsodefs C opts dom=some opts := by
  have hreuse := h.keep (d:=((C.soReuseaddr,C.solSocket),1)) List.mem_cons_self
  have htos := h.keep (d:=((C.ipTos,C.ipprotoIp),BitVec.ofNat 32 C.iptosThroughput))
    (List.mem_cons_of_mem _ List.mem_cons_self)
  rw [Parse.spAddsodefs,hreuse,Option.bind_some,htos,Option.bind_some]
  by_cases hd : dom=C.ipprotoTcp
  · rw [if_pos hd]
  · rw [if_neg hd]
    refine h.keep (d:=((C.soSndbuf,C.solSocket),18000-2*28)) ?_
    rw [Parse.defaults,if_neg hd]
    exact List.mem_append_right _ List.mem_cons_self

/-- A key with an entry has a value. -/
theorem valueOf_ne_none_iff : valueOf opts o≠none ↔ o∈opts.map NoptsS.key := by
  induction opts with
  | nil => exact iff_of_false (fun h => h rfl) (List.not_mem_nil)
  | cons e es ih =>
    rw [valueOf_cons,List.map_cons,List.mem_cons]
    by_cases he : e.key=o
    · rw [if_pos he]
      exact iff_of_true (Option.some_ne_none _) (.inl he.symm)
    · rw [if_neg he,ih]
      exact (or_iff_right (Ne.symm he)).symm

/-- An option that the system does not have is never given. -/
theorem lastGiven_zero (hz : o.1=0) (is : List (List Char)) : lastGiven C is o=none := by
  have hempty : (is.filter fun i => Names C (itemName i) o)=[] := by
    rw [List.filter_eq_nil_iff]
    intro i _ hi
    exact (of_decide_eq_true hi).known.1 hz
  rw [lastGiven,hempty]
  rfl

/-- Nor is it a default. -/
theorem defaultOf_zero (hz : o.1=0) (dom : ℕ) : defaultOf C dom o=none := by
  have hnone : (Parse.defaults C dom).find? (fun d => d.1.1≠0 && d.1==o)=none := by
    rw [List.find?_eq_none]
    intro d _ hd
    rw [Bool.and_eq_true,decide_eq_true_iff,beq_iff_eq] at hd
    exact hd.1 (hd.2 ▸ hz)
  rw [defaultOf,hnone]
  rfl

/-- A default of the system has a value. -/
theorem defaultOf_ne_none {dom : ℕ} {d : (ℕ×ℕ)×BitVec 32} (hd : d∈Parse.defaults C dom)
    (hz : d.1.1≠0) : defaultOf C dom d.1≠none := by
  rw [defaultOf,ne_eq,Option.map_eq_none_iff,List.find?_eq_none]
  intro h
  refine h d hd ?_
  rw [Bool.and_eq_true,decide_eq_true_iff,beq_iff_eq]
  exact ⟨hz,rfl⟩

/-- A filled table is as a parse leaves it. -/
theorem settled_of_filled {is : List (List Char)} {a b : NetpntS} (h : Filled C is a b) :
    Settled C b.dom b.opts where
  table := h.table
  nonzero e he hz := by
    have hval : valueOf b.opts e.key≠none := valueOf_ne_none_iff.mpr (List.mem_map_of_mem he)
    rw [h.value,lastGiven_zero hz,defaultOf_zero hz] at hval
    exact hval rfl
  defaults d hd hz := by
    rw [←valueOf_ne_none_iff,h.value]
    rw [h.dom] at hd
    intro hn
    exact defaultOf_ne_none hd hz (Option.or_eq_none_iff.mp hn).2

/-- A network endpoint as a parse leaves it. -/
structure Sound (C : SockConsts) (np : NetpntS) : Prop where
  /-- The protocol is one of the two. -/
  dom : np.dom=C.ipprotoTcp ∨ np.dom=C.ipprotoUdp
  /-- The options are as a parse leaves them. -/
  settled : Settled C np.dom np.opts
  /-- The host is not empty. -/
  host_ne : np.host≠[]
  /-- It fits. -/
  host_len : np.host.length<hostLen
  /-- No separator is in it. -/
  colon : ':'∉np.host
  /-- It is text. -/
  text : nul∉np.host

/-- What is read once the port is known is filled in, with a host that fits. -/
theorem refHostOpts_ok {is : List (List Char)} {host : List Char} {a b : NetpntS}
    (ha : a.opts=[]) (h : refHostOpts C is host a=some (.ok b)) :
    Filled C is {a with host := if host=[] then ['*'] else host} b ∧ host.length<hostLen := by
  obtain ⟨r,hr,herr,hok⟩ := refHostOpts_eq (C:=C) ha is host
  obtain rfl := Option.some.inj (hr.symm.trans h)
  refine ⟨hok b rfl,Nat.not_le.mp fun hlen => ?_⟩
  obtain ⟨e,he⟩ := herr.mpr (.inl hlen)
  cases he

/-- A text that is parsed gives a sound endpoint. -/
theorem refAddr_sound {proto : ℕ} {t : List Char} {np : NetpntS}
    (hp : proto=C.ipprotoTcp ∨ proto=C.ipprotoUdp) (hnul : nul∉t)
    (h : refAddr C proto t=some (.ok np)) : Sound C np := by
  have hfill : ∃ port,refHostOpts C (items t) (hostText t) ⟨proto,port,[],[]⟩=some (.ok np) := by
    unfold refAddr at h
    split at h
    · split at h
      · cases h
      · exact ⟨_,h⟩
    · exact ⟨_,h⟩
  obtain ⟨port,hfill⟩ := hfill
  obtain ⟨hf,hlen⟩ := refHostOpts_ok rfl hfill
  have hhost : np.host=if hostText t=[] then ['*'] else hostText t := hf.host
  have hcolon : ':'∉hostText t := by
    intro hc
    have hin : ':'∈t := List.mem_of_mem_take hc
    obtain ⟨p,q,rfl,hp'⟩ := List.eq_append_cons_of_mem hin
    rw [hostText,upTo_cut hp'] at hc
    exact hp' hc
  have hdom : np.dom=proto := hf.dom
  by_cases hempty : hostText t=[]
  · rw [if_pos hempty] at hhost
    refine ⟨hdom ▸ hp,settled_of_filled hf,?_,?_,?_,?_⟩ <;> rw [hhost] <;> decide
  · rw [if_neg hempty] at hhost
    refine ⟨hdom ▸ hp,settled_of_filled hf,?_,?_,?_,?_⟩ <;> rw [hhost]
    · exact hempty
    · exact hlen
    · exact hcolon
    · exact fun hc => hnul (List.mem_of_mem_take hc)

/-- The endpoint with the default port in the place of zero. -/
def withPort (np : NetpntS) : NetpntS := {np with port := if np.port=0 then defPort else np.port}

variable {np : NetpntS}

/-- The text behind the reported host. -/
theorem past_specText (h : Sound C np) : past ':' (specText C np)=
    printNat np.port.toNat++ ':'::List.intercalate [','] (optionTexts C np.opts) :=
  past_cut h.colon

/-- The reported port is read back, unless it is zero. -/
theorem spPort_specText (h : Sound C np) :
    spPort (past ':' (specText C np))=.ok (withPort np).port := by
  have hlt := np.port.isLt
  have hends : ∀ u,EndsNumber (':'::u) := by
    intro u c hc
    rw [←Option.some.inj hc]
    decide
  have hread : getUl (past ':' (specText C np))=(np.port.toNat,none) := by
    have hsmall : np.port.toNat<wordSize := by
      rw [wordSize_eq]
      omega
    rw [past_specText h,getUl,strtoul_printNat hsmall (hends _)]
    rfl
  have hzero : np.port.toNat%2^32=0 ↔ np.port=0 := by
    rw [←BitVec.toNat_inj,Nat.mod_eq_of_lt (by omega)]
    exact Iff.rfl
  rw [spPort_eq,hread,if_neg (not_not_intro rfl),portValue,withPort,BitVec.ofNat_toNat,
    BitVec.setWidth_eq]
  exact congrArg Except.ok (if_congr hzero rfl rfl)

/-- The reported options are the items of the specification. -/
theorem items_specText (h : Sound C np) : items (specText C np)=optionTexts C np.opts := by
  obtain ⟨_,hitems⟩ := optionTexts_items h.settled.nonzero h.settled.table.known
  have hcolon : ':'∉printNat np.port.toNat := fun hc => by
    have hd := printNat_digits _ _ hc
    exact absurd hd (by decide)
  rw [items,optText,past_specText h,past_cut hcolon]
  by_cases hnil : optionTexts C np.opts=[]
  · rw [hnil]
    rfl
  · have hsplit := List.splitOn_intercalate ',' (fun t ht => (hitems t ht).2.1) hnil
    rw [if_neg,hsplit]
    intro hempty
    rw [hempty] at hsplit
    have hin : []∈optionTexts C np.opts := hsplit ▸ List.mem_singleton_self []
    exact (hitems [] hin).1 rfl

/-- The reported fields are parsed to the endpoint that they were reported of. -/
theorem refAddr_specText (h : Sound C np) :
    refAddr C np.dom (specText C np)=some (.ok (withPort np)) := by
  have hhost : hostText (specText C np)=np.host := upTo_cut h.colon
  have hread : refItems C (optionTexts C np.opts) []=.ok np.opts :=
    refItems_texts [] h.settled.nonzero h.settled.table
  have hin : ':'∈specText C np := List.mem_append_right _ List.mem_cons_self
  rw [refAddr,if_pos hin,spPort_specText h,items_specText h,hhost]
  dsimp only
  rw [refHostOpts,refHost,if_neg (Nat.not_le.mpr h.host_len),if_neg h.host_ne]
  dsimp only
  rw [refOpts,hread]
  dsimp only
  rw [spDone,h.settled.spAddsodefs]
  rfl

/-- A specification that holds the reported fields at an offset is parsed to the
endpoint. -/
theorem spAddrParse_specText {s : CString} {fuel off dom : ℕ} (h : Sound C np)
    (hoff : off ≤ s.size) (hf : s.size<fuel) (htext : s.chars.drop off=specText C np)
    (hdom : spDom C dom=some np.dom) :
    spAddrParse C s fuel off dom=some (.ok (withPort np)) := by
  rw [spAddrParse_eq hoff hf hdom,htext,refAddr_specText h]

/-- A character that is in no part and not between them is not in the whole. -/
theorem notMem_intercalate {c sep : Char} {l : List (List Char)} (hs : c≠sep)
    (h : ∀ t∈l,c∉t) : c∉List.intercalate [sep] l := by
  induction l with
  | nil => exact List.not_mem_nil
  | cons t ts ih =>
    have ht : c∉t := h t List.mem_cons_self
    have hts := ih fun u hu => h u (List.mem_cons_of_mem t hu)
    cases ts with
    | nil => rwa [List.intercalate_singleton]
    | cons u us =>
      rw [List.intercalate_cons_cons,List.mem_append,List.mem_append,List.mem_singleton,not_or,
        not_or]
      exact ⟨⟨ht,hs⟩,hts⟩

/-- What is reported is text. -/
theorem specText_text (h : Sound C np) : nul∉specText C np := by
  obtain ⟨_,hitems⟩ := optionTexts_items h.settled.nonzero h.settled.table.known
  have hjoin : nul∉List.intercalate [','] (optionTexts C np.opts) :=
    notMem_intercalate (by decide) fun t ht => (hitems t ht).2.2
  rw [specText,List.mem_append,List.mem_cons,List.mem_append,List.mem_cons,not_or,not_or,not_or,
    not_or]
  refine ⟨h.text,by decide,fun hc => ?_,by decide,hjoin⟩
  have hd := printNat_digits _ _ hc
  exact absurd hd (by decide)

/-- What an endpoint is read as from its canonical specification. -/
def reread : Endpoint → Endpoint
  | .sock np => .sock (withPort np)
  | q => q

/-- An endpoint as the parser leaves it. -/
def Accepted (C : SockConsts) : Endpoint → Prop
  | .fd t => nul∉t
  | .file path => nul∉path
  | .sock np => Sound C np

/-- A network endpoint that is parsed is sound. -/
theorem spAddrParse_sound {s : CString} {off dom : ℕ}
    (h : spAddrParse C s (s.size+1) off dom=some (.ok np)) : Sound C np := by
  cases hdom : spDom C dom with
  | none =>
    rw [spAddrParse,hdom] at h
    cases h
  | some proto =>
    have hp : proto=C.ipprotoTcp ∨ proto=C.ipprotoUdp := by
      unfold spDom at hdom
      split at hdom
      · exact .inl (Option.some.inj hdom).symm
      · split at hdom
        · exact .inr (Option.some.inj hdom).symm
        · cases hdom
    by_cases hoff : off ≤ s.size
    · rw [spAddrParse_eq hoff (Nat.lt_succ_self _) hdom] at h
      exact refAddr_sound hp (fun hc => s.noNul (List.mem_of_mem_drop hc)) h
    · rw [spAddrParse_outside (Nat.not_le.mp hoff) hdom] at h
      cases h

/-- What is behind an offset is text. -/
theorem text_text {s : CString} {off : ℕ} {t : List Char} (h : s.text off=some t) : nul∉t := by
  unfold CString.text at h
  split at h
  · cases h
    exact fun hc => s.noNul (List.mem_of_mem_drop hc)
  · cases h

/-- The parser leaves such endpoints only. -/
theorem optSubspec_accepted {spec : CString} {dir : Dir} {q : Endpoint}
    (h : optSubspec C spec dir=some (.ok q)) : Accepted C q := by
  have hsock : ∀ dom,(spAddrParse C spec (spec.size+1) 2 dom).map (Except.map Endpoint.sock)=
      some (.ok q) → Accepted C q := by
    intro dom hs
    obtain ⟨r,hr,hq⟩ := Option.map_eq_some_iff.mp hs
    cases r with
    | error e => cases hq
    | ok np =>
      cases hq
      exact spAddrParse_sound hr
  unfold optSubspec at h
  dsimp only at h
  generalize (if 2<spec.size then 2 else spec.size)=len2 at h
  split at h
  · exact hsock _ h
  · split at h
    · exact hsock _ h
    · obtain ⟨c,_,h⟩ := Option.bind_eq_some_iff.mp h
      split at h
      · obtain ⟨c1,_,h⟩ := Option.bind_eq_some_iff.mp h
        obtain ⟨t,ht,hq⟩ := Option.map_eq_some_iff.mp h
        cases hq
        exact text_text ht
      · split at h
        · cases h
          have htext : nul∉dash .inp ∧ nul∉dash .out := by decide
          cases dir with
          | inp => exact htext.1
          | out => exact htext.2
        · obtain ⟨t,ht,hq⟩ := Option.map_eq_some_iff.mp h
          cases hq
          exact text_text ht

/-- A specification with a prefix of two characters is told by them. -/
theorem prefix_two {r : CString} {c : Char} {t : List Char} (hr : r.chars=c:: ':'::t) (d : Char) :
    strncaseeq r.chars [d,':'] (if 2<r.size then 2 else r.size)=true ↔ c.toLower=d.toLower := by
  have hlen : (if 2<r.size then 2 else r.size)=2 := by
    have hsize : r.size=t.length+2 := congrArg List.length hr
    split <;> omega
  have htake : ∀ x : Char,∀ u : List Char,((x:: ':'::u).map Char.toLower).take 2=[x.toLower,':'] :=
    fun _ _ => rfl
  rw [hlen,hr,strncaseeq,htake,htake,beq_iff_eq,List.cons_eq_cons]
  exact and_iff_left rfl

/-- The text behind such a prefix. -/
theorem text_two {r : CString} {c : Char} {t : List Char} (hr : r.chars=c:: ':'::t) :
    r.text 2=some t := by
  have hsize : 2 ≤ r.size := by
    have hs : r.size=t.length+2 := congrArg List.length hr
    omega
  rw [CString.text,if_pos hsize,hr]
  rfl

/-- The canonical specification of an endpoint is parsed to it. -/
theorem optSubspec_canonical {q : Endpoint} (h : Accepted C q) {r : CString}
    (hr : r.chars=canonical C q) (dir : Dir) :
    optSubspec C r dir=some (.ok (reread q)) := by
  have hsize : ∀ c t,r.chars=c:: ':'::t → 2 ≤ r.size := by
    intro c t hct
    have hs : r.size=t.length+2 := congrArg List.length hct
    omega
  obtain ⟨ht,hu,hd,hf⟩ : "t:".toList=['t',':'] ∧ "u:".toList=['u',':'] ∧ "d:".toList=['d',':'] ∧
      "f:".toList=['f',':'] := by decide
  unfold optSubspec
  dsimp only
  rw [ht,hu,hd,hf]
  cases q with
  | fd t =>
    have hp := prefix_two hr
    have hcolon : r.deref 1=some ':' := by rw [CString.deref,hr]; rfl
    have hzero : r.deref 0=some 'd' := by rw [CString.deref,hr]; rfl
    rw [if_neg (mt (hp 't').mp (by decide)),if_neg (mt (hp 'u').mp (by decide)),hzero,
      Option.bind_some,if_pos (.inr ((hp 'd').mpr rfl)),hcolon,Option.bind_some,if_pos rfl,
      text_two hr]
    rfl
  | file path =>
    have hp := prefix_two hr
    have hzero : r.deref 0=some 'f' := by rw [CString.deref,hr]; rfl
    have hdash : ¬strcaseeq r.chars "-".toList=true := by
      rw [hr,strcaseeq,beq_iff_eq]
      intro hc
      exact absurd (List.cons_eq_cons.mp hc).1 (by decide)
    rw [if_neg (mt (hp 't').mp (by decide)),if_neg (mt (hp 'u').mp (by decide)),hzero,
      Option.bind_some,if_neg (not_or.mpr ⟨by decide,mt (hp 'd').mp (by decide)⟩),if_neg hdash,
      if_pos ((hp 'f').mpr rfl),text_two hr]
    rfl
  | sock np =>
    have hp := prefix_two hr
    have hdrop : r.chars.drop 2=specText C np := by rw [hr]; rfl
    have hread : ∀ dom,spDom C dom=some np.dom →
        (spAddrParse C r (r.size+1) 2 dom).map (Except.map Endpoint.sock)=
          some (.ok (.sock (withPort np))) := by
      intro dom hdom
      rw [spAddrParse_specText h (hsize _ _ hr) (Nat.lt_succ_self _) hdrop hdom]
      rfl
    by_cases htcp : np.dom=C.ipprotoTcp
    · rw [if_pos htcp] at hp
      rw [if_pos ((hp 't').mpr rfl)]
      exact hread _ (congrArg some htcp.symm)
    · rw [if_neg htcp] at hp
      rw [if_neg (mt (hp 't').mp (by decide)),if_pos ((hp 'u').mpr rfl)]
      exact hread _ (congrArg some (h.dom.resolve_left htcp).symm)

/-- A canonical specification is text. -/
theorem canonical_text {q : Endpoint} (h : Accepted C q) : nul∉canonical C q := by
  cases q with
  | fd t =>
    rw [canonical,List.mem_cons,List.mem_cons,not_or,not_or]
    exact ⟨by decide,by decide,h⟩
  | file path =>
    rw [canonical,List.mem_cons,List.mem_cons,not_or,not_or]
    exact ⟨by decide,by decide,h⟩
  | sock np =>
    rw [canonical,List.mem_cons,List.mem_cons,not_or,not_or]
    refine ⟨?_,by decide,specText_text h⟩
    split <;> decide

end Yancat.Report
