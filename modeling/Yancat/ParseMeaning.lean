import Yancat.Parse

/-!
# What an endpoint specification means

The reference splits the text: the host in front of the first separator, the
options behind the second, items at commas, a value at bars. The parser walks
the same text with offsets; each of its loops is matched by a fold over the
parts, and the table it fills is read through its keys only. From this the
refusals and the contents of the table are characterised.
-/

namespace Yancat.Parse

open Strings Common

/-- The name of an item. -/
def itemName (i : List Char) : List Char := upTo '=' i

/-- The pieces of the value of an item. -/
def itemPieces (i : List Char) : List (List Char) := (past '=' i).splitOn '|'

/-- The value of an item: the pieces joined, or one without any. -/
def itemValue (C : SockConsts) (i : List Char) : BitVec 32 :=
  if '='∈i then (itemPieces i).foldl (fun val p => val|||spGetvalbystr C p) 0 else 1

/-- A name is that of an entry for an option of the system, whatever the case of
the letters. -/
def Matches (name : List Char) (e : StroptsS) : Prop :=
  e.opt≠0 ∧ name.map Char.toLower=e.name.map Char.toLower

/-- A known option: a name that is not empty stands for the first entry of the table
that it is the name of. -/
def Names (C : SockConsts) (name : List Char) (o : ℕ×ℕ) : Prop :=
  name≠[] ∧ ∃ es e es',optsByStr C=es++e::es' ∧ Matches name e ∧ (∀ d∈es,¬Matches name d) ∧
    o=(e.opt,e.lvl)

/-- The search for a name compares as the table is read. -/
theorem matches_iff (name : List Char) (e : StroptsS) :
    (decide (e.opt≠0) && strcaseeq name e.name)=true ↔ Matches name e := by
  rw [Bool.and_eq_true,decide_eq_true_iff]
  exact and_congr_right fun _ => beq_iff_eq

/-- The search by name finds the known options. -/
theorem spGetsobystr_iff {C : SockConsts} {name : List Char} {o : ℕ×ℕ} :
    spGetsobystr C name=some o ↔ Names C name o := by
  rw [spGetsobystr]
  by_cases hn : name=[]
  · rw [if_pos hn]
    exact iff_of_false (Option.some_ne_none o).symm fun h => h.1 hn
  · rw [if_neg hn,Option.map_eq_some_iff]
    constructor
    · rintro ⟨e,he,rfl⟩
      obtain ⟨hm,es,es',hsplit,hbefore⟩ := List.find?_eq_some_iff_append.mp he
      refine ⟨hn,es,e,es',hsplit,(matches_iff name e).mp hm,fun d hd hmd => ?_,rfl⟩
      have hno := hbefore d hd
      rw [(matches_iff name d).mpr hmd] at hno
      cases hno
    · rintro ⟨_,es,e,es',hsplit,hm,hbefore,rfl⟩
      have he := (matches_iff name e).mpr hm
      refine ⟨e,List.find?_eq_some_iff_append.mpr ⟨he,es,es',hsplit,fun d hd => ?_⟩,rfl⟩
      rw [Bool.not_eq_true']
      exact Bool.eq_false_iff.mpr fun h => hbefore d hd ((matches_iff name d).mp h)

instance Names.decidable (C : SockConsts) (name : List Char) (o : ℕ×ℕ) :
    Decidable (Names C name o) :=
  decidable_of_iff _ spGetsobystr_iff

/-- An item that is refused: its name or a piece of its value is too long, or it names
no known option. -/
def BadItem (C : SockConsts) (i : List Char) : Prop :=
  soptLen ≤ (itemName i).length ∨ (∀ o,¬Names C (itemName i) o) ∨
    '='∈i ∧ ∃ p∈itemPieces i,soptLen ≤ p.length

/-- The text of the host field. -/
def hostText (t : List Char) : List Char := upTo ':' t

/-- The text of the options field. -/
def optText (t : List Char) : List Char := past ':' (past ':' t)

/-- The items of a specification. -/
def items (t : List Char) : List (List Char) :=
  if optText t=[] then [] else (optText t).splitOn ','

/-- The key of an entry. -/
def NoptsS.key (e : NoptsS) : ℕ×ℕ := (e.opt,e.lvl)

/-- The value that a table has for a key. -/
def valueOf (opts : List NoptsS) (o : ℕ×ℕ) : Option (BitVec 32) :=
  (opts.find? fun e => e.key==o).map NoptsS.val

/-- The value of the last item that names an option. -/
def lastGiven (C : SockConsts) (is : List (List Char)) (o : ℕ×ℕ) : Option (BitVec 32) :=
  ((is.filter fun i => Names C (itemName i) o).getLast?).map (itemValue C)

/-- The defaults of a protocol. -/
def defaults (C : SockConsts) (dom : ℕ) : List ((ℕ×ℕ)×BitVec 32) :=
  [((C.soReuseaddr,C.solSocket),1),((C.ipTos,C.ipprotoIp),BitVec.ofNat 32 C.iptosThroughput)]++
    if dom=C.ipprotoTcp then [] else [((C.soSndbuf,C.solSocket),18000-2*28)]

/-- The default that a protocol has for a key, among the options of the system. -/
def defaultOf (C : SockConsts) (dom : ℕ) (o : ℕ×ℕ) : Option (BitVec 32) :=
  ((defaults C dom).find? fun d => d.1.1≠0 && d.1==o).map Prod.snd

/-- The port that a number stands for: the default for zero. -/
def portValue (n : ℕ) : BitVec 16 := if n%2^32=0 then defPort else BitVec.ofNat 16 n

/-- The endpoint that a text means. -/
structure Meaning (C : SockConsts) (dom : ℕ) (t : List Char) (a : NetpntS) : Prop where
  /-- The protocol is the one asked for. -/
  dom : spDom C dom=some a.dom
  /-- The host is the text in front of the first separator, or a wildcard. -/
  host : a.host=if hostText t=[] then ['*'] else hostText t
  /-- The port is that of the number in the port field, or the default. -/
  port : a.port=if ':'∈t then portValue (getUl (past ':' t)).1 else defPort
  /-- Every key occurs once. -/
  nodup : (a.opts.map NoptsS.key).Nodup
  /-- The table is not full. -/
  count : a.opts.length ≤ soptCnt
  /-- A key has its last given value, or its default. -/
  value : ∀ o,valueOf a.opts o=(lastGiven C (items t) o).or (defaultOf C a.dom o)

/-- The pieces of a value, one after the other. -/
def refVals (C : SockConsts) : List (List Char) → BitVec 32 → Except SpErr (BitVec 32)
  | [],val => .ok val
  | p::ps,val =>
    if soptLen ≤ p.length then .error (.badstr p) else refVals C ps (val|||spGetvalbystr C p)

/-- The name of an item, once its value is known. -/
def refName (C : SockConsts) (name : List Char) (val : BitVec 32) :
    Except SpErr ((ℕ×ℕ)×BitVec 32) :=
  if soptLen ≤ name.length then .error (.badstr name)
  else
    match spGetsobystr C name with
    | none => .error (.badopt name)
    | some o => .ok (o,val)

/-- An item: its value, then its name. -/
def refItem (C : SockConsts) (i : List Char) : Except SpErr ((ℕ×ℕ)×BitVec 32) :=
  match if '='∈i then refVals C (itemPieces i) 0 else .ok 1 with
  | .error e => .error e
  | .ok val => refName C (itemName i) val

/-- The table with a value for a key, which replaces another where asked to. -/
def assign (o : ℕ×ℕ) (val : BitVec 32) (ovr : Bool) : List NoptsS → List NoptsS
  | [] => [⟨o.1,o.2,val⟩]
  | e::es =>
    if e.key=o then if ovr=true then ⟨o.1,o.2,val⟩::es else e::es else e::assign o val ovr es

/-- The items, one after the other. -/
def refItems (C : SockConsts) : List (List Char) → List NoptsS → Except SpErr (List NoptsS)
  | [],opts => .ok opts
  | i::is,opts =>
    match refItem C i with
    | .error e => .error e
    | .ok (o,val) => refItems C is (assign o val true opts)

variable {C : SockConsts} {s : CString} {off n fuel : ℕ} {v name : List Char} {stop : Option ℕ}

/-- The loop over the pieces of a value is the fold over them. -/
theorem spVals_eq {idx3 : ℕ} (h : Runs s (idx3+1) v stop) (hn : v.length<n) (val : BitVec 32) :
    spVals C s stop n idx3 val=some (refVals C (v.splitOn '|') val) := by
  induction n generalizing idx3 v val with
  | zero => exact absurd hn (Nat.not_lt_zero _)
  | succ n ih =>
    obtain ⟨r,hr,hin⟩ := h.strchr '|'
    rw [spVals,hr,Option.bind_some]
    dsimp only
    rw [hin]
    by_cases hc : '|'∈v
    · obtain ⟨p,q,rfl,hp⟩ := List.eq_append_cons_of_mem hc
      have hq : q.length<n := by
        rw [List.length_append,List.length_cons] at hn
        omega
      have hspan : spanLen s (idx3+1) (some (idx3+1+p.length)) stop=some p.length :=
        congrArg some (Nat.add_sub_cancel_left _ _)
      rw [if_pos hc,idxOf_cut hp,hspan,Option.bind_some,
        List.splitOn_append_cons_self_of_not_mem hp,refVals]
      by_cases hl : soptLen ≤ p.length
      · rw [if_pos hl,if_pos hl,h.front.printed]
        rfl
      · rw [if_neg hl,if_neg hl,h.front.copy (Nat.not_le.mp hl)]
        exact ih h.behind hq _
    · rw [if_neg hc,h.spanLen,Option.bind_some,List.splitOn_eq_singleton hc,refVals,refVals]
      by_cases hl : soptLen ≤ v.length
      · rw [if_pos hl,if_pos hl,h.printed]
        rfl
      · rw [if_neg hl,if_neg hl,h.copy (Nat.not_le.mp hl)]

/-- The name of an item is looked up as the text that it is. -/
theorem spName_eq (h : Runs s off name stop) (val : BitVec 32) :
    spName C s off name.length val=some (refName C name val) := by
  rw [spName,refName]
  by_cases hl : soptLen ≤ name.length
  · rw [if_pos hl,if_pos hl,h.printed]
    rfl
  · rw [if_neg hl,if_neg hl,h.copy (Nat.not_le.mp hl),List.take_length]
    cases spGetsobystr C name <;> rfl

/-- An item is read as the text that it is. -/
theorem spItem_eq (h : Runs s off v stop) (hn : v.length<fuel) :
    spItem C s fuel off stop=some (refItem C v) := by
  obtain ⟨r,hr,hin⟩ := h.strchr '='
  rw [spItem,hr,Option.bind_some,hin,refItem]
  by_cases hc : '='∈v
  · obtain ⟨p,q,rfl,hp⟩ := List.eq_append_cons_of_mem hc
    have hq : q.length<fuel := by
      rw [List.length_append,List.length_cons] at hn
      omega
    rw [if_pos hc,if_pos hc,idxOf_cut hp,itemPieces,itemName,past_cut hp,upTo_cut hp]
    dsimp only
    rw [spVals_eq h.behind hq,Option.bind_some,Nat.add_sub_cancel_left]
    cases refVals C (q.splitOn '|') 0 with
    | error e => rfl
    | ok val => exact spName_eq h.front val
  · rw [if_neg hc,if_neg hc,itemName,upTo_of_notMem hc]
    dsimp only
    rw [h.spanLen,Option.bind_some]
    exact spName_eq h 1

/-- The keys of the options known by name. -/
def knownKeys (C : SockConsts) : List (ℕ×ℕ) := (optsByStr C).map fun o => (o.opt,o.lvl)

/-- A table whose keys are known and occur once. -/
structure TableOk (C : SockConsts) (opts : List NoptsS) : Prop where
  /-- Every key occurs once. -/
  nodup : (opts.map NoptsS.key).Nodup
  /-- Every key is known. -/
  known : opts.map NoptsS.key⊆knownKeys C

variable {opts : List NoptsS} {o : ℕ×ℕ} {val : BitVec 32} {ovr : Bool}

/-- The empty table. -/
theorem TableOk.nil : TableOk C [] := ⟨List.nodup_nil,List.nil_subset _⟩

/-- There are fewer known keys than entries. -/
theorem TableOk.length_lt (h : TableOk C opts) : opts.length<soptCnt := by
  have hle := (h.nodup.subperm h.known).length_le
  rw [List.length_map] at hle
  exact hle.trans_lt (by decide : 6<16)

/-- The search for an entry compares keys. -/
theorem key_eq (e : NoptsS) (o : ℕ×ℕ) : (e.opt==o.1 && e.lvl==o.2)=decide (e.key=o) := by
  rw [Bool.eq_iff_iff,Bool.and_eq_true,beq_iff_eq,beq_iff_eq,decide_eq_true_iff]
  exact (Prod.ext_iff (x:=e.key) (y:=o)).symm

/-- What the search for an entry leads to is the assignment. -/
theorem assign_eq (o : ℕ×ℕ) (val : BitVec 32) (ovr : Bool) (opts : List NoptsS) :
    assign o val ovr opts=
      if opts.findIdx (fun e => e.opt==o.1 && e.lvl==o.2)=opts.length then opts++[⟨o.1,o.2,val⟩]
      else if ovr=true then opts.set (opts.findIdx fun e => e.opt==o.1 && e.lvl==o.2) ⟨o.1,o.2,val⟩
      else opts := by
  induction opts with
  | nil => rfl
  | cons e es ih =>
    rw [assign,List.findIdx_cons,key_eq]
    by_cases he : e.key=o
    · have hz : ¬0=(e::es).length := by
        rw [List.length_cons]
        omega
      rw [if_pos he,decide_eq_true he,cond_true,if_neg hz]
      rfl
    · rw [if_neg he,decide_eq_false he,cond_false,ih,List.length_cons]
      by_cases hi : es.findIdx (fun e => e.opt==o.1 && e.lvl==o.2)=es.length
      · rw [if_pos hi,if_pos (congrArg (·+1) hi),List.cons_append]
      · rw [if_neg hi,if_neg fun h => hi (Nat.add_right_cancel h)]
        split <;> rfl

/-- In a table that is not full an entry is assigned. -/
theorem spAddsobyint_eq (ho : o.1≠0) (hl : opts.length<soptCnt) :
    spAddsobyint opts o.1 o.2 val ovr=some (assign o val ovr opts) := by
  have hle : opts.findIdx (fun e => e.opt==o.1 && e.lvl==o.2) ≤ opts.length :=
    List.findIdx_le_length
  rw [spAddsobyint,if_neg ho,assign_eq]
  dsimp only
  generalize opts.findIdx (fun e => e.opt==o.1 && e.lvl==o.2)=i at hle ⊢
  have hlt : i<soptCnt := hle.trans_lt hl
  rw [if_neg hlt.ne]
  by_cases hi : i=opts.length
  · rw [if_pos (Or.inl hi),if_pos hlt,if_pos hi,if_pos hi]
  · by_cases hovr : ovr=true
    · rw [if_pos (Or.inr hovr),if_pos hlt,if_neg hi,if_neg hi,if_pos hovr]
    · rw [if_neg (not_or.mpr ⟨hi,hovr⟩),if_neg hi,if_neg hovr]

/-- The keys after an assignment. -/
theorem keys_assign : (assign o val ovr opts).map NoptsS.key=
    if o∈opts.map NoptsS.key then opts.map NoptsS.key else opts.map NoptsS.key++[o] := by
  induction opts with
  | nil => rfl
  | cons e es ih =>
    rw [assign]
    by_cases he : e.key=o
    · have hm : o∈(e::es).map NoptsS.key := List.mem_cons.mpr (.inl he.symm)
      rw [if_pos he,if_pos hm]
      split
      · rw [List.map_cons,List.map_cons,he]
        rfl
      · rfl
    · rw [if_neg he,List.map_cons,ih]
      by_cases hm : o∈es.map NoptsS.key
      · have hm' : o∈(e::es).map NoptsS.key := List.mem_cons_of_mem _ hm
        rw [if_pos hm,if_pos hm',List.map_cons]
      · have hm' : o∉(e::es).map NoptsS.key := fun h =>
          (List.mem_cons.mp h).elim (fun h => he h.symm) hm
        rw [if_neg hm,if_neg hm',List.map_cons,List.cons_append]

/-- An assignment to a known key keeps the table well formed. -/
theorem TableOk.assign (h : TableOk C opts) (ho : o∈knownKeys C) :
    TableOk C (assign o val ovr opts) := by
  constructor <;> rw [keys_assign]
  · split
    · exact h.nodup
    · next hm =>
      rw [List.nodup_append]
      refine ⟨h.nodup,List.nodup_singleton o,fun a ha b hb => ?_⟩
      rw [List.mem_singleton] at hb
      rintro rfl
      exact hm (hb ▸ ha)
  · split
    · exact h.known
    · rw [List.append_subset]
      refine ⟨h.known,fun a ha => ?_⟩
      rw [List.mem_singleton.mp ha]
      exact ho

/-- The value of a key in a table with a first entry. -/
theorem valueOf_cons (e : NoptsS) (es : List NoptsS) (o : ℕ×ℕ) :
    valueOf (e::es) o=if e.key=o then some e.val else valueOf es o := by
  rw [valueOf,List.find?_cons]
  by_cases he : e.key=o
  · rw [beq_iff_eq.mpr he,if_pos he]
    rfl
  · rw [beq_eq_false_iff_ne.mpr he,if_neg he]
    rfl

/-- An assignment leaves the other keys alone. -/
theorem valueOf_assign_ne {o' : ℕ×ℕ} (h : o≠o') :
    valueOf (assign o val ovr opts) o'=valueOf opts o' := by
  have hkey : (⟨o.1,o.2,val⟩ : NoptsS).key=o := rfl
  induction opts with
  | nil => rw [assign,valueOf_cons,hkey,if_neg h]
  | cons e es ih =>
    rw [assign]
    by_cases he : e.key=o
    · rw [if_pos he]
      split
      · rw [valueOf_cons,valueOf_cons,hkey,he,if_neg h,if_neg h]
      · rfl
    · rw [if_neg he,valueOf_cons,valueOf_cons,ih]

/-- An assignment gives a key its value, or leaves the one it has. -/
theorem valueOf_assign_self : valueOf (assign o val ovr opts) o=
    if ovr=true then some val else (valueOf opts o).or (some val) := by
  have hkey : (⟨o.1,o.2,val⟩ : NoptsS).key=o := rfl
  induction opts with
  | nil =>
    rw [assign,valueOf_cons,hkey,if_pos rfl]
    split <;> rfl
  | cons e es ih =>
    rw [assign]
    by_cases he : e.key=o
    · rw [if_pos he]
      split
      · rw [valueOf_cons,hkey,if_pos rfl]
      · rw [valueOf_cons,if_pos he]
        rfl
    · rw [if_neg he,valueOf_cons,valueOf_cons,if_neg he,if_neg he,ih]

/-- What is named is an option of the system and of the table. -/
theorem Names.known {name : List Char} (h : Names C name o) : o.1≠0 ∧ o∈knownKeys C := by
  obtain ⟨_,es,e,es',hsplit,hm,_,rfl⟩ := h
  have hin : e∈optsByStr C := hsplit ▸ List.mem_append_right es List.mem_cons_self
  exact ⟨hm.1,List.mem_map_of_mem hin⟩

/-- A name stands for one option. -/
theorem Names.unique {name : List Char} {o' : ℕ×ℕ} (h : Names C name o) (h' : Names C name o') :
    o=o' :=
  Option.some.inj ((spGetsobystr_iff.mpr h).symm.trans (spGetsobystr_iff.mpr h'))

/-- The pieces of a value are joined, unless one is too long. -/
theorem refVals_ok {ps : List (List Char)} (h : ∀ p∈ps,p.length<soptLen) (val : BitVec 32) :
    refVals C ps val=.ok (ps.foldl (fun val p => val|||spGetvalbystr C p) val) := by
  induction ps generalizing val with
  | nil => rfl
  | cons p ps ih =>
    rw [refVals,if_neg (Nat.not_le.mpr (h p List.mem_cons_self))]
    exact ih (fun q hq => h q (List.mem_cons_of_mem p hq)) _

/-- A piece that is too long is refused. -/
theorem refVals_error {ps : List (List Char)} (h : ∃ p∈ps,soptLen ≤ p.length) (val : BitVec 32) :
    ∃ e,refVals C ps val=.error e := by
  induction ps generalizing val with
  | nil =>
    obtain ⟨p,hp,_⟩ := h
    cases hp
  | cons p ps ih =>
    rw [refVals]
    split
    · exact ⟨_,rfl⟩
    · next hp =>
      obtain ⟨q,hq,hl⟩ := h
      rcases List.mem_cons.mp hq with rfl|hq
      · exact absurd hl hp
      · exact ih ⟨q,hq,hl⟩ _

/-- A bad item is refused. -/
theorem refItem_bad {i : List Char} (h : BadItem C i) : ∃ e,refItem C i=.error e := by
  rw [refItem]
  rcases hv : (if '='∈i then refVals C (itemPieces i) 0 else .ok 1) with e|val
  · exact ⟨e,rfl⟩
  · dsimp only
    rw [refName]
    split
    · exact ⟨_,rfl⟩
    · next hl =>
      rcases h with h|h|⟨hm,hp⟩
      · exact absurd h hl
      · cases hs : spGetsobystr C (itemName i) with
        | none => exact ⟨_,rfl⟩
        | some o => exact absurd (spGetsobystr_iff.mp hs) (h o)
      · obtain ⟨e,he⟩ := refVals_error (C:=C) hp 0
        rw [if_pos hm,he] at hv
        cases hv

/-- Any other item has a key and a value. -/
theorem refItem_good {i : List Char} (h : ¬BadItem C i) :
    ∃ o,Names C (itemName i) o ∧ refItem C i=.ok (o,itemValue C i) := by
  rw [BadItem,not_or,not_or,not_and,not_forall_not] at h
  obtain ⟨hl,⟨o,ho⟩,hp⟩ := h
  refine ⟨o,ho,?_⟩
  have hv : (if '='∈i then refVals C (itemPieces i) 0 else .ok 1)=.ok (itemValue C i) := by
    rw [itemValue]
    split
    · next hm =>
      refine refVals_ok (fun p hq => ?_) 0
      by_contra hlen
      exact hp hm ⟨p,hq,Nat.not_lt.mp hlen⟩
    · rfl
  rw [refItem,hv]
  dsimp only
  rw [refName,if_neg hl,spGetsobystr_iff.mpr ho]

/-- The items are refused when one of them is. -/
theorem refItems_bad {is : List (List Char)} (h : ∃ i∈is,BadItem C i) (opts : List NoptsS) :
    ∃ e,refItems C is opts=.error e := by
  induction is generalizing opts with
  | nil =>
    obtain ⟨i,hi,_⟩ := h
    cases hi
  | cons i is ih =>
    rw [refItems]
    by_cases hb : BadItem C i
    · obtain ⟨e,he⟩ := refItem_bad hb
      rw [he]
      exact ⟨e,rfl⟩
    · obtain ⟨o,_,ho⟩ := refItem_good hb
      obtain ⟨j,hj,hbad⟩ := h
      rw [ho]
      rcases List.mem_cons.mp hj with rfl|hj
      · exact absurd hbad hb
      · exact ih ⟨j,hj,hbad⟩ _

/-- The last value among an item and those after it. -/
theorem lastGiven_cons (i : List Char) (is : List (List Char)) (o : ℕ×ℕ) :
    lastGiven C (i::is) o=
      (lastGiven C is o).or
        (if Names C (itemName i) o then some (itemValue C i) else none) := by
  rw [lastGiven,lastGiven,List.filter_cons]
  by_cases hk : Names C (itemName i) o
  · rw [if_pos (decide_eq_true hk),if_pos hk,List.getLast?_cons]
    cases (is.filter fun i => Names C (itemName i) o).getLast? <;> rfl
  · rw [if_neg (mt of_decide_eq_true hk),if_neg hk,Option.or_none]

/-- Otherwise the table ends with the last value of every key. -/
theorem refItems_good {is : List (List Char)} (h : ∀ i∈is,¬BadItem C i) (ht : TableOk C opts) :
    ∃ out,refItems C is opts=.ok out ∧ TableOk C out ∧
      ∀ o,valueOf out o=(lastGiven C is o).or (valueOf opts o) := by
  induction is generalizing opts with
  | nil => exact ⟨opts,rfl,ht,fun o => rfl⟩
  | cons i is ih =>
    obtain ⟨o,hk,hi⟩ := refItem_good (h i List.mem_cons_self)
    obtain ⟨ho,hknown⟩ := hk.known
    have hnext : TableOk C (assign o (itemValue C i) true opts) := ht.assign hknown
    obtain ⟨out,hout,hok,hval⟩ := ih (fun j hj => h j (List.mem_cons_of_mem i hj)) hnext
    refine ⟨out,by rw [refItems,hi]; exact hout,hok,fun o' => ?_⟩
    rw [hval,lastGiven_cons]
    by_cases he : o=o'
    · subst he
      rw [valueOf_assign_self,if_pos rfl,if_pos hk]
      cases lastGiven C is o <;> rfl
    · rw [valueOf_assign_ne he,if_neg fun h => he (hk.unique h),Option.or_none]

/-- What an item is read as names a known option of the system. -/
theorem refItem_known {i : List Char} (h : refItem C i=.ok (o,val)) :
    o.1≠0 ∧ o∈knownKeys C := by
  by_cases hb : BadItem C i
  · obtain ⟨e,he⟩ := refItem_bad hb
    rw [he] at h
    cases h
  · obtain ⟨o',hk,ho⟩ := refItem_good hb
    rw [ho] at h
    cases h
    exact hk.known

/-- The loop over the items is the fold over them. -/
theorem spItems_eq {spec : ℕ} (hs : spec+1 ≤ s.size) (hn : s.size<spec+1+n) (hf : s.size<fuel)
    (ht : TableOk C opts) :
    spItems C s fuel n spec opts=some (refItems C ((s.chars.drop (spec+1)).splitOn ',') opts) := by
  induction n generalizing spec opts with
  | zero => omega
  | succ n ih =>
    obtain ⟨v,r,hr,hruns,hcut⟩ := Runs.upto hs ','
    have hfits := hruns.fits
    have hitem := spItem_eq (C:=C) hruns (by omega : v.length<fuel)
    rw [spItems,hr,Option.bind_some,hitem,Option.bind_some]
    rcases hcut with ⟨rfl,hnot,hv⟩|⟨q,rfl,hnot,hv⟩
    · rw [hv,List.splitOn_eq_singleton hnot,refItems]
      rcases hi : refItem C v with e|⟨o,val⟩
      · rfl
      · obtain ⟨ho,_⟩ := refItem_known hi
        dsimp only
        rw [spAddsobyint_eq ho ht.length_lt,refItems]
        rfl
    · rw [hv,List.splitOn_append_cons_self_of_not_mem hnot,refItems]
      rcases hi : refItem C v with e|⟨o,val⟩
      · rfl
      · obtain ⟨ho,hknown⟩ := refItem_known hi
        have hnext : TableOk C (assign o val true opts) := ht.assign hknown
        have hlen := congrArg List.length hv
        rw [List.length_drop,List.length_append,List.length_cons] at hlen
        have hq : s.chars.drop (spec+1+v.length+1)=q := drop_cut hv
        have hsize : s.size=s.chars.length := rfl
        dsimp only
        rw [spAddsobyint_eq ho ht.length_lt,Option.bind_some]
        rw [if_pos hnext.length_lt,ih (by omega) (by omega) hnext,hq]

/-- A default is added where a key has no value. -/
theorem TableOk.default (ht : TableOk C opts) (ho : o∈knownKeys C) (val : BitVec 32) :
    ∃ out,spAddsobyint opts o.1 o.2 val false=some out ∧ TableOk C out ∧
      ∀ o',valueOf out o'=(valueOf opts o').or (if o.1≠0 ∧ o=o' then some val else none) := by
  by_cases hz : o.1=0
  · refine ⟨opts,if_pos hz,ht,fun o' => ?_⟩
    rw [if_neg (not_and_of_not_left _ (not_not_intro hz)),Option.or_none]
  · refine ⟨_,spAddsobyint_eq hz ht.length_lt,ht.assign ho,fun o' => ?_⟩
    by_cases he : o=o'
    · subst he
      rw [valueOf_assign_self,if_neg Bool.false_ne_true,if_pos ⟨hz,rfl⟩]
    · rw [valueOf_assign_ne he,if_neg (not_and_of_not_right _ he),Option.or_none]

/-- The first of several defaults for a key. -/
theorem find_default_cons (d : (ℕ×ℕ)×BitVec 32) (ds : List ((ℕ×ℕ)×BitVec 32)) (o : ℕ×ℕ) :
    ((d::ds).find? fun d => d.1.1≠0 && d.1==o).map Prod.snd=
      (if d.1.1≠0 ∧ d.1=o then some d.2 else none).or
        ((ds.find? fun d => d.1.1≠0 && d.1==o).map Prod.snd) := by
  rw [List.find?_cons]
  by_cases hd : d.1.1≠0 ∧ d.1=o
  · have hb : (decide (d.1.1≠0) && d.1==o)=true := by
      rw [Bool.and_eq_true,decide_eq_true_iff,beq_iff_eq]
      exact hd
    rw [if_pos hd,hb]
    rfl
  · have hb : (decide (d.1.1≠0) && d.1==o)=false := by
      rw [Bool.eq_false_iff,ne_eq,Bool.and_eq_true,decide_eq_true_iff,beq_iff_eq]
      exact hd
    rw [if_neg hd,hb,Option.none_or]

/-- The defaults fill the rest of a table. -/
theorem spAddsodefs_eq (ht : TableOk C opts) (dom : ℕ) :
    ∃ out,spAddsodefs C opts dom=some out ∧ TableOk C out ∧
      ∀ o,valueOf out o=(valueOf opts o).or (defaultOf C dom o) := by
  have hreuse : (C.soReuseaddr,C.solSocket)∈knownKeys C := by simp [knownKeys,optsByStr]
  have htos : (C.ipTos,C.ipprotoIp)∈knownKeys C := by simp [knownKeys,optsByStr]
  have hsnd : (C.soSndbuf,C.solSocket)∈knownKeys C := by simp [knownKeys,optsByStr]
  obtain ⟨opts1,h1,ht1,hv1⟩ := ht.default hreuse 1
  obtain ⟨opts2,h2,ht2,hv2⟩ := ht1.default htos (BitVec.ofNat 32 C.iptosThroughput)
  obtain ⟨opts3,h3,ht3,hv3⟩ := ht2.default hsnd (18000-2*28)
  rw [spAddsodefs,h1,Option.bind_some,h2,Option.bind_some]
  by_cases hd : dom=C.ipprotoTcp
  · rw [if_pos hd]
    refine ⟨opts2,rfl,ht2,fun o => ?_⟩
    rw [hv2,hv1,defaultOf,defaults,if_pos hd,List.append_nil,find_default_cons,find_default_cons,
      Option.or_assoc]
    exact congrArg (Option.or _) (congrArg (Option.or _) (Option.or_none).symm)
  · rw [if_neg hd]
    refine ⟨opts3,h3,ht3,fun o => ?_⟩
    rw [hv3,hv2,hv1,defaultOf,defaults,if_neg hd,List.cons_append,List.cons_append,List.nil_append,
      find_default_cons,find_default_cons,find_default_cons,Option.or_assoc,Option.or_assoc]
    exact congrArg (Option.or _) (congrArg (Option.or _) (congrArg (Option.or _)
      (Option.or_none).symm))

/-- The host field. -/
def refHost (v : List Char) : Except SpErr (List Char) :=
  if hostLen ≤ v.length then .error (.badstr v) else .ok (if v=[] then ['*'] else v)

/-- The host field is read as the text that it is. -/
theorem spHost_eq (h : Runs s off v stop) : spHost s off v.length=some (refHost v) := by
  rw [spHost,refHost]
  by_cases hl : hostLen ≤ v.length
  · rw [if_pos hl,if_pos hl,h.printed]
    rfl
  · rw [if_neg hl,if_neg hl]
    by_cases hv : v=[]
    · subst hv
      rfl
    · rw [if_neg (mt List.length_eq_zero_iff.mp hv),if_neg hv,h.memcpy,Option.bind_some,fillArray,
        if_pos (Nat.not_le.mp hl)]
      rfl

/-- The options field of the text behind the first separator. -/
def optItems (u : List Char) : List (List Char) :=
  if past ':' u=[] then [] else (past ':' u).splitOn ','

/-- What a parse does once it has the host and the port. -/
def refOpts (C : SockConsts) (is : List (List Char)) (a : NetpntS) :
    Option (Except SpErr NetpntS) :=
  match refItems C is a.opts with
  | .error e => some (.error e)
  | .ok opts => spDone C {a with opts := opts}

/-- The options field is read as the items that it is. -/
theorem spOpts_eq {k : ℕ} {a : NetpntS} (hk : k ≤ s.size) (hf : s.size<fuel) (ha : a.opts=[]) :
    spOpts C s fuel k a=refOpts C (optItems (s.chars.drop k)) a := by
  obtain ⟨w,r,hr,hruns,hcut⟩ := Runs.upto hk ':'
  have hfits := hruns.fits
  rw [spOpts,hr,Option.bind_some,refOpts,ha]
  rcases hcut with ⟨rfl,hnot,hw⟩|⟨q,rfl,hnot,hw⟩
  · rw [hw,optItems,past_of_notMem hnot,if_pos rfl,←ha]
    rfl
  · have hlen := congrArg List.length hw
    have hsize : s.size=s.chars.length := rfl
    rw [List.length_drop,List.length_append,List.length_cons] at hlen
    have hq : s.chars.drop (k+w.length+1)=q := drop_cut hw
    have hd : s.deref (k+w.length+1)=some (q.headD nul) := by
      rw [CString.deref,←List.head?_drop,List.drop_append_of_le_length (by omega),hq]
      cases q <;> rfl
    dsimp only
    rw [hd,Option.bind_some,hw,optItems,past_cut hnot]
    cases q with
    | nil =>
      rw [List.headD_nil,if_pos rfl,if_pos rfl,refItems,←ha]
    | cons c q =>
      have hc : c≠nul := fun h => s.noNul (h ▸ List.mem_of_mem_drop (hq ▸ List.mem_cons_self))
      rw [List.headD_cons,if_neg hc,if_neg (List.cons_ne_nil c q),
        spItems_eq (by omega) (by omega) hf TableOk.nil,hq]
      cases refItems C ((c::q).splitOn ',') [] <;> rfl

/-- What is added to an endpoint that has its host and its port. -/
structure Filled (C : SockConsts) (is : List (List Char)) (a b : NetpntS) : Prop where
  /-- The protocol stays. -/
  dom : b.dom=a.dom
  /-- The port stays. -/
  port : b.port=a.port
  /-- The host stays. -/
  host : b.host=a.host
  /-- The table is well formed. -/
  table : TableOk C b.opts
  /-- A key has its last given value, or its default. -/
  value : ∀ o,valueOf b.opts o=(lastGiven C is o).or (defaultOf C a.dom o)

/-- The items are refused when one of them is, otherwise the table is filled. -/
theorem refOpts_eq {a : NetpntS} (ha : a.opts=[]) (is : List (List Char)) :
    ∃ r,refOpts C is a=some r ∧ ((∃ e,r=.error e) ↔ ∃ i∈is,BadItem C i) ∧
      ∀ b,r=.ok b → Filled C is a b := by
  rw [refOpts,ha]
  by_cases hb : ∃ i∈is,BadItem C i
  · obtain ⟨e,he⟩ := refItems_bad hb []
    rw [he]
    refine ⟨_,rfl,iff_of_true ⟨e,rfl⟩ hb,fun b h => ?_⟩
    cases h
  · have hgood : ∀ i∈is,¬BadItem C i := fun i hi h => hb ⟨i,hi,h⟩
    obtain ⟨opts,hopts,ht,hv⟩ := refItems_good hgood TableOk.nil
    obtain ⟨out,hout,htout,hvout⟩ := spAddsodefs_eq ht a.dom
    rw [hopts]
    dsimp only
    rw [spDone,hout]
    refine ⟨_,rfl,iff_of_false (fun ⟨e,h⟩ => by cases h) hb,fun b h => ?_⟩
    cases h
    refine ⟨rfl,rfl,rfl,htout,fun o => ?_⟩
    rw [hvout,hv]
    exact congrArg (Option.or · _) Option.or_none

/-- What a parse does once it has the port. -/
def refHostOpts (C : SockConsts) (is : List (List Char)) (host : List Char) (a : NetpntS) :
    Option (Except SpErr NetpntS) :=
  match refHost host with
  | .error e => some (.error e)
  | .ok h => refOpts C is {a with host := h}

/-- The host is refused for its length, otherwise the items decide. -/
theorem refHostOpts_eq {a : NetpntS} (ha : a.opts=[]) (is : List (List Char)) (host : List Char) :
    ∃ r,refHostOpts C is host a=some r ∧
      ((∃ e,r=.error e) ↔ hostLen ≤ host.length ∨ ∃ i∈is,BadItem C i) ∧
      ∀ b,r=.ok b → Filled C is {a with host := if host=[] then ['*'] else host} b := by
  rw [refHostOpts,refHost]
  by_cases hl : hostLen ≤ host.length
  · rw [if_pos hl]
    refine ⟨_,rfl,iff_of_true ⟨_,rfl⟩ (.inl hl),fun b h => ?_⟩
    cases h
  · have ha' : {a with host := if host=[] then ['*'] else host}.opts=[] := ha
    obtain ⟨r,hr,herr,hok⟩ := refOpts_eq (C:=C) ha' is
    rw [if_neg hl]
    exact ⟨r,hr,herr.trans (or_iff_right hl).symm,hok⟩

/-- The port field is its number, unless that is refused. -/
theorem spPort_eq (u : List Char) : spPort u=
    if (getUl u).2≠none then .error .badcnv else .ok (portValue (getUl u).1) := by
  have hzero : BitVec.ofNat 32 (getUl u).1=0 ↔ (getUl u).1%2^32=0 := by
    rw [←BitVec.toNat_inj,BitVec.toNat_ofNat]
    exact Iff.rfl
  have hcast : (BitVec.ofNat 32 (getUl u).1).setWidth 16=BitVec.ofNat 16 (getUl u).1 := by
    apply BitVec.eq_of_toNat_eq
    rw [BitVec.toNat_setWidth,BitVec.toNat_ofNat,BitVec.toNat_ofNat]
    omega
  rw [spPort,portValue,hcast]
  by_cases hn : (getUl u).2≠none
  · rw [if_pos hn,if_pos hn]
  · rw [if_neg hn,if_neg hn]
    by_cases hz : (getUl u).1%2^32=0
    · rw [if_pos hz,if_neg (not_not_intro (hzero.mpr hz))]
    · rw [if_neg hz,if_pos (mt hzero.mp hz)]

/-- A parse of a text for a protocol. -/
def refAddr (C : SockConsts) (proto : ℕ) (t : List Char) : Option (Except SpErr NetpntS) :=
  if ':'∈t then
    match spPort (past ':' t) with
    | .error e => some (.error e)
    | .ok port => refHostOpts C (items t) (hostText t) ⟨proto,port,[],[]⟩
  else refHostOpts C (items t) (hostText t) ⟨proto,defPort,[],[]⟩

/-- The parser does what the reference does. -/
theorem spAddrParse_eq {dom proto : ℕ} (h : off ≤ s.size) (hf : s.size<fuel)
    (hproto : spDom C dom=some proto) :
    spAddrParse C s fuel off dom=refAddr C proto (s.chars.drop off) := by
  obtain ⟨v,r,hr,hruns,hcut⟩ := Runs.upto h ':'
  have hfits := hruns.fits
  rw [spAddrParse,hproto,refAddr]
  dsimp only
  rw [hr,Option.bind_some]
  rcases hcut with ⟨rfl,hnot,ht⟩|⟨u,rfl,hnot,ht⟩
  · have hitems : items v=[] := by
      rw [items,optText,past_of_notMem hnot]
      rfl
    have hlen : s.strlen off=some v.length := hruns.spanLen
    rw [ht,hitems,hostText,upTo_of_notMem hnot,if_neg hnot,refHostOpts]
    dsimp only
    rw [hlen,Option.bind_some,spHost_eq hruns,Option.bind_some]
    rfl
  · have hlen := congrArg List.length ht
    have hsize : s.size=s.chars.length := rfl
    rw [List.length_drop,List.length_append,List.length_cons] at hlen
    have hk : off+v.length+1 ≤ s.size := by omega
    have htext : s.text (off+v.length+1)=some u := by rw [CString.text,if_pos hk,drop_cut ht]
    have hm : ':'∈v++ ':'::u := List.mem_append_right v List.mem_cons_self
    have hitems : items (v++ ':'::u)=optItems u := by rw [items,optText,past_cut hnot,optItems]
    rw [ht,if_pos hm,past_cut hnot,hitems,hostText,upTo_cut hnot]
    dsimp only
    rw [htext,Option.bind_some,Nat.add_sub_cancel_left,spHost_eq hruns]
    cases spPort u with
    | error e => rfl
    | ok port =>
      dsimp only
      rw [Option.bind_some,refHostOpts]
      cases refHost v with
      | error e => rfl
      | ok host =>
        dsimp only
        rw [spOpts_eq hk hf rfl,drop_cut ht]

/-- What is filled in means what the text says. -/
theorem Filled.meaning {t : List Char} {a b : NetpntS} {dom : ℕ} (h : Filled C (items t) a b)
    (hd : spDom C dom=some a.dom) (hh : a.host=if hostText t=[] then ['*'] else hostText t)
    (hp : a.port=if ':'∈t then portValue (getUl (past ':' t)).1 else defPort) :
    Meaning C dom t b where
  dom := h.dom ▸ hd
  host := h.host.trans hh
  port := h.port.trans hp
  nodup := h.table.nodup
  count := h.table.length_lt.le
  value := by
    rw [h.dom]
    exact h.value

/-- The reference refuses a text for its port, its host or an item, and gives its
meaning otherwise. -/
theorem refAddr_eq {dom proto : ℕ} (hproto : spDom C dom=some proto) (t : List Char) :
    ∃ r,refAddr C proto t=some r ∧
      ((∃ e,r=.error e) ↔ ':'∈t ∧ (getUl (past ':' t)).2≠none ∨
        hostLen ≤ (hostText t).length ∨ ∃ i∈items t,BadItem C i) ∧
      ∀ a,r=.ok a → Meaning C dom t a := by
  rw [refAddr]
  by_cases hm : ':'∈t
  · rw [if_pos hm,spPort_eq]
    by_cases hn : (getUl (past ':' t)).2≠none
    · rw [if_pos hn]
      refine ⟨_,rfl,iff_of_true ⟨_,rfl⟩ (.inl ⟨hm,hn⟩),fun a ha => ?_⟩
      cases ha
    · obtain ⟨b,hb,herr,hok⟩ := refHostOpts_eq (C:=C)
        (a:=⟨proto,portValue (getUl (past ':' t)).1,[],[]⟩) rfl (items t) (hostText t)
      rw [if_neg hn]
      refine ⟨b,hb,herr.trans (or_iff_right fun hbad => hn hbad.2).symm,fun a ha => ?_⟩
      exact (hok a ha).meaning hproto rfl (if_pos hm).symm
  · rw [if_neg hm]
    obtain ⟨b,hb,herr,hok⟩ := refHostOpts_eq (C:=C) (a:=⟨proto,defPort,[],[]⟩) rfl (items t)
      (hostText t)
    refine ⟨b,hb,herr.trans (or_iff_right fun hbad => hm hbad.1).symm,fun a ha => ?_⟩
    exact (hok a ha).meaning hproto rfl (if_neg hm).symm

/-- Past the terminator there is no parse. -/
theorem spAddrParse_outside {dom proto : ℕ} (h : s.size<off) (hproto : spDom C dom=some proto) :
    spAddrParse C s fuel off dom=none := by
  rw [spAddrParse,hproto,CString.strchr,CString.text,if_neg (Nat.not_le.mpr h)]
  rfl

/-- An endpoint that was accepted is that of its text. -/
theorem spAddrParse_meaning {dom proto : ℕ} {a : NetpntS} (hf : s.size<fuel)
    (hproto : spDom C dom=some proto) (h : spAddrParse C s fuel off dom=some (.ok a)) :
    off ≤ s.size ∧ Meaning C dom (s.chars.drop off) a := by
  by_cases hoff : off ≤ s.size
  · obtain ⟨r,hr,_,hok⟩ := refAddr_eq hproto (s.chars.drop off)
    rw [spAddrParse_eq hoff hf hproto,hr] at h
    exact ⟨hoff,hok a (Option.some.inj h)⟩
  · rw [spAddrParse_outside (Nat.not_le.mp hoff) hproto] at h
    cases h

/-- A specification is refused for its port, its host or one of its items, and
means what it says otherwise. That there is a result is termination with every
access inside the text and the arrays. -/
theorem sp_addr_parse_meaning (C : SockConsts) (s : CString) (fuel off dom : ℕ) (h : off ≤ s.size)
    (hf : s.size<fuel) (hdom : dom=specIsTcp ∨ dom=specIsUdp) :
    ∃ r,spAddrParse C s fuel off dom=some r ∧
      ((∃ e,r=.error e) ↔
        ':'∈s.chars.drop off ∧ (getUl (past ':' (s.chars.drop off))).2≠none ∨
        hostLen ≤ (hostText (s.chars.drop off)).length ∨
        ∃ i∈items (s.chars.drop off),BadItem C i) ∧
      ∀ a,r=.ok a → Meaning C dom (s.chars.drop off) a := by
  obtain ⟨proto,hproto⟩ : ∃ proto,spDom C dom=some proto := by
    rcases hdom with rfl|rfl
    · exact ⟨_,rfl⟩
    · exact ⟨_,rfl⟩
  rw [spAddrParse_eq h hf hproto]
  exact refAddr_eq hproto _

/-- A specification with an option and its value is accepted. -/
theorem sp_addr_parse_meaning_one : ∃ a,
    spAddrParse linux ⟨"h:80:SO_SNDBUF=1".toList,by decide⟩ 20 0 specIsTcp=some (.ok a) ∧
      a.host=['h'] ∧ a.port=80 ∧ valueOf a.opts (linux.soSndbuf,linux.solSocket)=some 1 ∧
      Meaning linux specIsTcp "h:80:SO_SNDBUF=1".toList a := by
  obtain ⟨r,hr,_,hok⟩ := sp_addr_parse_meaning linux ⟨"h:80:SO_SNDBUF=1".toList,by decide⟩ 20 0
    specIsTcp (by decide) (by decide) (.inl rfl)
  have hrun : spAddrParse linux ⟨"h:80:SO_SNDBUF=1".toList,by decide⟩ 20 0 specIsTcp=some (.ok
      ⟨6,80,[⟨7,1,1⟩,⟨2,1,1⟩,⟨1,0,8⟩],['h']⟩) := by rfl
  exact ⟨_,hrun,rfl,rfl,rfl,hok _ (Option.some.inj (hr.symm.trans hrun))⟩

end Yancat.Parse
