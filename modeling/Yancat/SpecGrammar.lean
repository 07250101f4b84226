import Yancat.ParseMeaning
import Yancat.Options

/-!
# The grammar of endpoint specifications

The documented grammar is stated on the text alone and compared with the
branches of the parser. They agree from two characters on, but for a second
colon that is dropped with the first. A shorter text equals a prefix as far as
it goes, so that the empty one and the single letters of the grammar are taken
for a prefix.
-/

namespace Yancat.SpecGrammar

open Strings Parse Options

variable {δ : Type}

/-- A letter, in either case, in front of a colon. -/
def hasPrefix (c : Char) : List Char → Bool
  | l::d::_ => l.toLower==c && d== ':'
  | _ => false

/-- What a specification asks for, by its documented grammar. -/
def documented (C : SockConsts) (dir : Dir) (t : List Char) : Option (Except SpErr Endpoint) :=
  if hasPrefix 't' t=true then (refAddr C C.ipprotoTcp (t.drop 2)).map (Except.map .sock)
  else if hasPrefix 'u' t=true then (refAddr C C.ipprotoUdp (t.drop 2)).map (Except.map .sock)
  else if hasPrefix 'd' t=true then some (.ok (.fd (t.drop 2)))
  else if hasPrefix 'f' t=true then some (.ok (.file (t.drop 2)))
  else if t=['-'] then some (.ok (.fd (dash dir)))
  else if t.head?=some ':' then some (.ok (.fd (t.drop 1)))
  else some (.ok (.file t))

/-- A text that ends within a prefix. -/
def ShortSpec (t : List Char) : Prop :=
  t=[] ∨ ∃ c,t=[c] ∧ c.toLower∈['t','u','d','f']

/-- A text that begins with two colons. -/
def TwoColons (t : List Char) : Prop := [':',':']<+:t

/-- A side that a specification is given for gets what the grammar says. -/
def Documented (C : SockConsts) (opts : OptionsS δ) (dir : Dir) (s : CString) : Prop :=
  optSubparse C (unset dir opts) s dir=
    (documented C dir s.chars).map (Except.map ((unset dir opts).record dir))

/-- No address past the terminator is formed or read. -/
def Inside (C : SockConsts) (opts : OptionsS δ) (dir : Dir) (s : CString) : Prop :=
  optSubparse C (unset dir opts) s dir≠none

variable {C : SockConsts} {opts : OptionsS δ} {dir : Dir} {s : CString} {c d l : Char}
  {rest : List Char}

/-- From two characters on the comparison finds a prefix where there is one. -/
theorem strncaseeq_long (c d : Char) (rest : List Char) (hl : l.toLower=l) :
    strncaseeq (c::d::rest) [l,':'] 2=hasPrefix l (c::d::rest) := by
  have hcolon : ':'.toLower= ':' := by decide
  rw [Bool.eq_iff_iff,strncaseeq,hasPrefix,beq_iff_eq,Bool.and_eq_true,beq_iff_eq,beq_iff_eq,
    ←toLower_eq_iff (by decide : ':'.toNat<65)]
  simp [hl,hcolon]

/-- What a prefix is. -/
theorem hasPrefix_iff : hasPrefix l (c::d::rest)=true ↔ c.toLower=l ∧ d= ':' := by
  rw [hasPrefix,Bool.and_eq_true,beq_iff_eq,beq_iff_eq]

/-- A text that begins with a colon has no prefix with a letter. -/
theorem hasPrefix_colon (hl : l≠ ':') : hasPrefix l (':'::d::rest)=false := by
  rw [Bool.eq_false_iff,ne_eq,hasPrefix_iff,not_and]
  intro h
  exact absurd h.symm hl

/-- The rest of a text behind two characters is parsed as the text that it is. -/
theorem spAddrParse_rest {dom proto : ℕ} (hs : s.chars=c::d::rest)
    (hproto : spDom C dom=some proto) : spAddrParse C s (s.size+1) 2 dom=refAddr C proto rest := by
  have hsize : s.size=rest.length+2 := congrArg List.length hs
  rw [spAddrParse_eq (by omega) (Nat.lt_succ_self _) hproto,hs]
  rfl

/-- The branches for a text that is not empty. -/
theorem optSubspec_branches {len2 : ℕ} (hlen : (if 2<s.size then 2 else s.size)=len2)
    (h0 : s.deref 0=some c) (h1 : s.deref 1=some d) : optSubspec C s dir=
      if strncaseeq s.chars ['t',':'] len2=true then
        (spAddrParse C s (s.size+1) 2 specIsTcp).map (Except.map .sock)
      else if strncaseeq s.chars ['u',':'] len2=true then
        (spAddrParse C s (s.size+1) 2 specIsUdp).map (Except.map .sock)
      else if c= ':' ∨ strncaseeq s.chars ['d',':'] len2=true then
        (s.text (if d= ':' then 2 else 1)).map fun t => .ok (.fd t)
      else if strcaseeq s.chars ['-']=true then some (.ok (.fd (dash dir)))
      else (s.text (if strncaseeq s.chars ['f',':'] len2=true then 2 else 0)).map
        fun t => .ok (.file t) := by
  rw [optSubspec,hlen,h0,Option.bind_some,h1,Option.bind_some]
  rfl

/-- From two characters on the parser follows the grammar, unless the text begins
with two colons. -/
theorem optSubspec_long (hs : s.chars=c::d::rest) : optSubspec C s dir=
    if c= ':' ∧ d= ':' then some (.ok (.fd rest)) else documented C dir (c::d::rest) := by
  have hsize : s.size=rest.length+2 := congrArg List.length hs
  have hlen2 : (if 2<s.size then 2 else s.size)=2 := by
    split <;> omega
  have hderef0 : s.deref 0=some c := by rw [CString.deref,hs]; rfl
  have hderef1 : s.deref 1=some d := by rw [CString.deref,hs]; rfl
  have htext : ∀ off,off ≤ 2 → s.text off=some ((c::d::rest).drop off) := by
    intro off hoff
    rw [CString.text,if_pos (by omega),hs]
  have hp : ∀ l : Char,l.toLower=l → strncaseeq s.chars [l,':'] 2=hasPrefix l (c::d::rest) := by
    intro l hl
    rw [hs,strncaseeq_long c d rest hl]
  have hdash : strcaseeq s.chars ['-']=false := by
    rw [strcaseeq,hs]
    refine beq_eq_false_iff_ne.mpr fun h => ?_
    have hlen := congrArg List.length h
    simp at hlen
  rw [optSubspec_branches hlen2 hderef0 hderef1,hp 't' (by decide),hp 'u' (by decide),
    hp 'd' (by decide),hp 'f' (by decide),hdash,spAddrParse_rest hs rfl,spAddrParse_rest hs rfl,
    documented]
  have hpre : ∀ l,l≠ ':' → hasPrefix l (c::d::rest)=true → ¬(c= ':' ∧ d= ':') := by
    rintro l hl h ⟨rfl,_⟩
    rw [hasPrefix_colon hl] at h
    cases h
  by_cases h1 : hasPrefix 't' (c::d::rest)=true
  · rw [if_pos h1,if_neg (hpre _ (by decide) h1),if_pos h1]
    rfl
  rw [if_neg h1,if_neg h1]
  by_cases h2 : hasPrefix 'u' (c::d::rest)=true
  · rw [if_pos h2,if_neg (hpre _ (by decide) h2),if_pos h2]
    rfl
  rw [if_neg h2,if_neg h2]
  by_cases h3 : hasPrefix 'd' (c::d::rest)=true
  · rw [if_pos (.inr h3),if_neg (hpre _ (by decide) h3),if_pos h3,if_pos (hasPrefix_iff.mp h3).2,
      htext 2 le_rfl]
    rfl
  rw [if_neg h3]
  have hone : c::d::rest≠['-'] := fun h => by cases h
  by_cases h4 : c= ':'
  · subst h4
    have hhead : (':'::d::rest).head?=some ':' := rfl
    rw [if_pos (.inl rfl),hasPrefix_colon (by decide),if_neg Bool.false_ne_true,if_neg hone,
      if_pos hhead]
    by_cases h5 : d= ':'
    · rw [if_pos h5,if_pos ⟨rfl,h5⟩,htext 2 le_rfl]
      rfl
    · rw [if_neg h5,if_neg (fun h => h5 h.2),htext 1 (by omega)]
      rfl
  · have hhead : (c::d::rest).head?≠some ':' := fun h => h4 (Option.some.inj h)
    have hcolons : ¬(c= ':' ∧ d= ':') := fun h => h4 h.1
    rw [if_neg (not_or.mpr ⟨h4,h3⟩),if_neg Bool.false_ne_true,if_neg hcolons,if_neg hone,
      if_neg hhead]
    by_cases h5 : hasPrefix 'f' (c::d::rest)=true
    · rw [if_pos h5,if_pos h5,htext 2 le_rfl]
      rfl
    · rw [if_neg h5,if_neg h5,htext 0 (by omega)]
      rfl

/-- What a single character asks for. -/
theorem documented_one (c : Char) : documented C dir [c]=
    if c= '-' then some (.ok (.fd (dash dir)))
    else if c= ':' then some (.ok (.fd [])) else some (.ok (.file [c])) := by
  have hno : ∀ l,hasPrefix l [c]=false := fun l => rfl
  have hdash : [c]=['-'] ↔ c= '-' := List.singleton_inj
  have hhead : [c].head?=some ':' ↔ c= ':' := Option.some_inj
  rw [documented,hno,if_neg Bool.false_ne_true,hno,if_neg Bool.false_ne_true,hno,
    if_neg Bool.false_ne_true,hno,if_neg Bool.false_ne_true]
  simp only [hdash,hhead]
  rfl

/-- A letter of the grammar is neither a dash nor a colon. -/
theorem ne_of_letter (h : c.toLower∈['t','u','d','f']) : c≠ '-' ∧ c≠ ':' := by
  constructor
  · rintro rfl
    exact absurd h (by decide)
  · rintro rfl
    exact absurd h (by decide)

/-- Of a single character the parser takes a letter of the grammar for a prefix. -/
theorem optSubspec_one (hs : s.chars=[c]) : optSubspec C s dir=
    if c.toLower= 't' ∨ c.toLower= 'u' ∨ c.toLower= 'f' then none
    else if c.toLower= 'd' then some (.ok (.fd [])) else documented C dir [c] := by
  have hsize : s.size=1 := congrArg List.length hs
  have hlen2 : (if 2<s.size then 2 else s.size)=1 := by
    rw [hsize]
    rfl
  have hderef0 : s.deref 0=some c := by rw [CString.deref,hs]; rfl
  have hderef1 : s.deref 1=some nul := by rw [CString.deref,hs]; rfl
  have htext : ∀ off,off ≤ 1 → s.text off=some ([c].drop off) := by
    intro off hoff
    rw [CString.text,if_pos (by omega),hs]
  have hbeyond : s.text 2=none := by rw [CString.text,if_neg (by omega)]
  have hp : ∀ l : Char,l.toLower=l → (strncaseeq s.chars [l,':'] 1=true ↔ c.toLower=l) := by
    intro l hl
    rw [hs,strncaseeq,beq_iff_eq]
    simp [hl]
  have hdash : strcaseeq s.chars ['-']=true ↔ c= '-' := by
    rw [strcaseeq,hs,beq_iff_eq,←toLower_eq_iff (by decide : '-'.toNat<65)]
    simp
  rw [optSubspec_branches hlen2 hderef0 hderef1,spAddrParse_outside (by omega) rfl,
    spAddrParse_outside (by omega) rfl,documented_one]
  simp only [hp 't' (by decide),hp 'u' (by decide),hp 'd' (by decide),hp 'f' (by decide),hdash]
  have hnul : ¬nul= ':' := by decide
  by_cases h1 : c.toLower= 't'
  · rw [if_pos h1,if_pos (.inl h1)]
    rfl
  rw [if_neg h1]
  by_cases h2 : c.toLower= 'u'
  · rw [if_pos h2,if_pos (.inr (.inl h2))]
    rfl
  rw [if_neg h2]
  by_cases h3 : c.toLower= 'f'
  · have hl : c.toLower∈['t','u','d','f'] := by
      rw [h3]
      decide
    have hcolon : ¬(c= ':' ∨ c.toLower= 'd') := by
      rintro (h|h)
      · exact (ne_of_letter hl).2 h
      · rw [h3] at h
        cases h
    have hshort : c.toLower= 't' ∨ c.toLower= 'u' ∨ c.toLower= 'f' := .inr (.inr h3)
    rw [if_pos hshort,if_neg hcolon,if_neg (ne_of_letter hl).1,if_pos h3,hbeyond]
    rfl
  have hnone : ¬(c.toLower= 't' ∨ c.toLower= 'u' ∨ c.toLower= 'f') := by
    rintro (h|h|h)
    · exact h1 h
    · exact h2 h
    · exact h3 h
  rw [if_neg hnone,if_neg hnul,if_neg h3,htext 1 le_rfl,htext 0 (by omega)]
  by_cases h4 : c.toLower= 'd'
  · have hfd : c= ':' ∨ c.toLower= 'd' := .inr h4
    rw [if_pos hfd,if_pos h4]
    rfl
  rw [if_neg h4]
  by_cases h5 : c= ':'
  · have hminus : c≠ '-' := by
      rw [h5]
      decide
    have hfd : c= ':' ∨ c.toLower= 'd' := .inl h5
    rw [if_pos hfd,if_neg hminus,if_pos h5]
    rfl
  · rw [if_neg (not_or.mpr ⟨h5,h4⟩),if_neg h5]
    rfl

/-- The empty text is taken for a prefix. -/
theorem optSubspec_nil (hs : s.chars=[]) : optSubspec C s dir=none := by
  have hsize : s.size=0 := congrArg List.length hs
  have hp : strncaseeq s.chars "t:".toList (if 2<s.size then 2 else s.size)=true := by
    rw [hsize,hs]
    rfl
  rw [optSubspec,if_pos hp,spAddrParse_outside (by omega) rfl]
  rfl

/-- The grammar gives every text a meaning or a refusal. -/
theorem documented_ne_none (C : SockConsts) (dir : Dir) (t : List Char) :
    documented C dir t≠none := by
  have hsock : ∀ dom proto,spDom C dom=some proto →
      (refAddr C proto (t.drop 2)).map (Except.map Endpoint.sock)≠none := by
    intro dom proto hproto
    obtain ⟨r,hr,_⟩ := refAddr_eq hproto (t.drop 2)
    rw [hr]
    exact Option.some_ne_none _
  rw [documented]
  split
  · exact hsock specIsTcp _ rfl
  split
  · exact hsock specIsUdp _ rfl
  repeat' split
  all_goals exact Option.some_ne_none _

/-- What follows the grammar stays inside. -/
theorem Documented.inside (h : Documented C opts dir s) : Inside C opts dir s := by
  rw [Inside,h,ne_eq,Option.map_eq_none_iff]
  exact documented_ne_none C dir s.chars

/-- Where the branches give what the grammar gives, the side gets it. -/
theorem documented_of_eq (h : optSubspec C s dir=documented C dir s.chars) :
    Documented C opts dir s := by rw [Documented,optSubparse,h]

/-- Without a result of the branches an address past the terminator was used. -/
theorem not_inside_of_none (h : optSubspec C s dir=none) : ¬Inside C opts dir s := by
  rw [Inside,optSubparse,h]
  exact not_not_intro rfl

/-- A recorded endpoint is in the descriptor field of its side when it is one. -/
theorem fd_record (q : Endpoint) : ((unset dir opts).record dir q).fd dir=
    match q with
    | .fd t => some t
    | _ => none := by
  cases q with
  | fd t => exact Function.update_self ..
  | file path => exact Function.update_self ..
  | sock np => exact Function.update_self ..

/-- A descriptor that the grammar does not ask for is told from what it asks for. -/
theorem not_documented_of_fd {t : List Char} {q : Endpoint}
    (h : optSubspec C s dir=some (.ok (.fd t))) (hq : documented C dir s.chars=some (.ok q))
    (hne : q≠.fd t) : ¬Documented C opts dir s := by
  rw [Documented,optSubparse,h,hq]
  intro heq
  have hfd : ((unset dir opts).record dir (.fd t)).fd dir=((unset dir opts).record dir q).fd dir :=
    congrArg (fun o : OptionsS δ => o.fd dir) (Except.ok.inj (Option.some.inj heq))
  rw [fd_record,fd_record] at hfd
  cases q with
  | fd t' => exact hne (congrArg Endpoint.fd (Option.some.inj hfd.symm))
  | file path => cases hfd
  | sock np => cases hfd

/-- From two characters on the branches give a result. -/
theorem inside_of_long (hs : s.chars=c::d::rest) : Inside C opts dir s := by
  rw [Inside,optSubparse,ne_eq,Option.map_eq_none_iff,optSubspec_long hs]
  split
  · exact Option.some_ne_none _
  · exact documented_ne_none C dir _

/-- A single character outside the grammar is no short specification. -/
theorem shortSpec_one : ShortSpec [c] ↔ c.toLower∈['t','u','d','f'] := by
  constructor
  · rintro (h|⟨c',h,hc⟩)
    · cases h
    · cases h
      exact hc
  · exact fun h => .inr ⟨c,rfl,h⟩

/-- Two characters are no short specification. -/
theorem not_shortSpec_long : ¬ShortSpec (c::d::rest) := by
  rintro (h|⟨c',h,_⟩) <;> cases h

/-- A text of two characters or more that begins with two colons. -/
theorem twoColons_long : TwoColons (c::d::rest) ↔ c= ':' ∧ d= ':' := by
  rw [TwoColons,List.cons_prefix_cons,List.cons_prefix_cons,eq_comm,eq_comm (a:= ':')]
  exact and_congr_right fun _ => and_iff_left (List.nil_prefix)

/-- A single letter of the grammar is classified wrongly, if at all. -/
theorem not_documented_one (hs : s.chars=[c]) (h : c.toLower∈['t','u','d','f']) :
    ¬Inside C opts dir s ∨ ¬Documented C opts dir s := by
  by_cases hnone : c.toLower= 't' ∨ c.toLower= 'u' ∨ c.toLower= 'f'
  · refine .inl (not_inside_of_none ?_)
    rw [optSubspec_one hs,if_pos hnone]
  · have hd : c.toLower= 'd' := by
      simp only [List.mem_cons,List.not_mem_nil,or_false] at h
      tauto
    have hfd : optSubspec C s dir=some (.ok (.fd [])) := by
      rw [optSubspec_one hs,if_neg hnone,if_pos hd]
    have hfile : documented C dir s.chars=some (.ok (.file [c])) := by
      rw [hs,documented_one,if_neg (ne_of_letter h).1,if_neg (ne_of_letter h).2]
    exact .inr (not_documented_of_fd hfd hfile fun h => by cases h)

/-- Any other single character is classified by the grammar. -/
theorem documented_of_one (hs : s.chars=[c]) (h : c.toLower∉['t','u','d','f']) :
    Documented C opts dir s := by
  simp only [List.mem_cons,List.not_mem_nil,or_false,not_or] at h
  obtain ⟨ht,hu,hd,hf⟩ := h
  have hnone : ¬(c.toLower= 't' ∨ c.toLower= 'u' ∨ c.toLower= 'f') := by tauto
  refine documented_of_eq ?_
  rw [optSubspec_one hs,if_neg hnone,if_neg hd,hs]

/-- Behind two colons the grammar asks for another descriptor. -/
theorem not_documented_twoColons (hs : s.chars= ':':: ':'::rest) :
    ¬Documented C opts dir s := by
  have hfd : optSubspec C s dir=some (.ok (.fd rest)) := by
    rw [optSubspec_long hs,if_pos ⟨rfl,rfl⟩]
  have hdoc : documented C dir s.chars=some (.ok (.fd (':'::rest))) := by
    rw [hs,documented,hasPrefix_colon (by decide),if_neg Bool.false_ne_true,
      hasPrefix_colon (by decide),if_neg Bool.false_ne_true,hasPrefix_colon (by decide),
      if_neg Bool.false_ne_true,hasPrefix_colon (by decide),if_neg Bool.false_ne_true]
    rfl
  refine not_documented_of_fd hfd hdoc fun h => ?_
  exact List.cons_ne_self ':' rest (Endpoint.fd.inj h)

/-- Any other text of two characters or more is classified by the grammar. -/
theorem documented_of_long (hs : s.chars=c::d::rest) (h : ¬(c= ':' ∧ d= ':')) :
    Documented C opts dir s := by
  refine documented_of_eq ?_
  rw [optSubspec_long hs,if_neg h,hs]

/-- A specification stays inside its argument and is classified by its grammar
exactly when it does not end within a prefix. That all of what follows a leading
colon is the string of a descriptor needs another character than a second one. -/
theorem opt_subparse_grammar (C : SockConsts) (opts : OptionsS δ) (dir : Dir) (s : CString) :
    (Inside C opts dir s ∧ (s.chars.head?≠some ':' → Documented C opts dir s) ↔
      ¬ShortSpec s.chars) ∧
    (Inside C opts dir s ∧ Documented C opts dir s ↔
      ¬ShortSpec s.chars ∧ ¬TwoColons s.chars) := by
  rcases hs : s.chars with _|⟨c,_|⟨d,rest⟩⟩
  · have hin : ¬Inside C opts dir s := not_inside_of_none (optSubspec_nil hs)
    have hshort : ShortSpec [] := .inl rfl
    exact ⟨iff_of_false (fun h => hin h.1) (not_not_intro hshort),
      iff_of_false (fun h => hin h.1) (fun h => h.1 hshort)⟩
  · by_cases hl : c.toLower∈['t','u','d','f']
    · have hshort : ShortSpec [c] := shortSpec_one.mpr hl
      have hhead : [c].head?≠some ':' := fun h => (ne_of_letter hl).2 (Option.some.inj h)
      have hbad : ¬(Inside C opts dir s ∧ Documented C opts dir s) :=
        not_and_or.mpr (not_documented_one hs hl)
      exact ⟨iff_of_false (fun h => hbad ⟨h.1,h.2 hhead⟩) (not_not_intro hshort),
        iff_of_false hbad (fun h => h.1 hshort)⟩
    · have hdoc : Documented C opts dir s := documented_of_one hs hl
      have hshort : ¬ShortSpec [c] := mt shortSpec_one.mp hl
      have htwo : ¬TwoColons [c] := fun h => absurd h.length_le (by simp)
      exact ⟨iff_of_true ⟨hdoc.inside,fun _ => hdoc⟩ hshort,
        iff_of_true ⟨hdoc.inside,hdoc⟩ ⟨hshort,htwo⟩⟩
  · have hin : Inside C opts dir s := inside_of_long hs
    have hshort : ¬ShortSpec (c::d::rest) := not_shortSpec_long
    by_cases hcc : c= ':' ∧ d= ':'
    · obtain ⟨rfl,rfl⟩ := hcc
      have htwo : TwoColons (':':: ':'::rest) := twoColons_long.mpr ⟨rfl,rfl⟩
      exact ⟨iff_of_true ⟨hin,fun h => absurd rfl h⟩ hshort,
        iff_of_false (fun h => not_documented_twoColons hs h.2) (fun h => h.2 htwo)⟩
    · have hdoc : Documented C opts dir s := documented_of_long hs hcc
      exact ⟨iff_of_true ⟨hin,fun _ => hdoc⟩ hshort,
        iff_of_true ⟨hin,hdoc⟩ ⟨hshort,mt twoColons_long.mp hcc⟩⟩

/-- A single letter is parsed past the terminator, or read as a descriptor. -/
theorem opt_subparse_short :
    ¬Inside linux (setDefault linuxEnv) .inp ⟨['t'],by decide⟩ ∧
    ¬Inside linux (setDefault linuxEnv) .inp ⟨[],by decide⟩ ∧
    ¬Documented linux (setDefault linuxEnv) .inp ⟨['d'],by decide⟩ :=
  ⟨not_inside_of_none (by decide),not_inside_of_none (by decide),
    not_documented_of_fd (t:=[]) (q:=.file ['d']) (by decide) (by decide) (by decide)⟩

end Yancat.SpecGrammar
