import Mathlib.Data.List.Basic
import Mathlib.Tactic

/-!
# Terminated strings

A string in memory is its characters, none of which is the terminator, and a
pointer into it is an offset. Every function that dereferences a pointer fails
past the terminator, so that a computation with a result has stayed inside. The
laws relate what a scan finds to the split of the text in front of it, up to an
end that another scan has found.
-/

namespace Yancat.Strings

/-- The terminator. -/
def nul : Char := Char.ofNat 0

/-- A terminated string. -/
structure CString where
  /-- The characters before the terminator. -/
  chars : List Char
  /-- None of them is the terminator. -/
  noNul : nul∉chars

/-- The offset of the terminator. -/
def CString.size (s : CString) : ℕ := s.chars.length

/-- The character at an offset, the terminator included. -/
def CString.deref (s : CString) (off : ℕ) : Option Char := (s.chars++[nul])[off]?

/-- The text from an offset to the terminator. -/
def CString.text (s : CString) (off : ℕ) : Option (List Char) :=
  if off ≤ s.size then some (s.chars.drop off) else none

/-- `strlen`. -/
def CString.strlen (s : CString) (off : ℕ) : Option ℕ := (s.text off).map List.length

/-- `strchr`: the offset of the first such character, if there is one. -/
def CString.strchr (s : CString) (off : ℕ) (c : Char) : Option (Option ℕ) :=
  (s.text off).map fun t => if c∈t then some (off+t.idxOf c) else none

/-- The source of a `memcpy` of `n` characters. -/
def CString.memcpy (s : CString) (off n : ℕ) : Option (List Char) :=
  if off+n ≤ s.size then some ((s.chars.drop off).take n) else none

/-- What `%.*s` prints: at most `n` characters, up to the terminator. -/
def CString.printed (s : CString) (off n : ℕ) : Option (List Char) :=
  (s.text off).map (List.take n)

/-- An array of `cap` cells filled with a text and its terminator. -/
def fillArray (cap : ℕ) (t : List Char) : Option (List Char) :=
  if t.length<cap then some t else none

/-- `strcasecmp` finds no difference. -/
def strcaseeq (a b : List Char) : Bool := a.map Char.toLower==b.map Char.toLower

/-- `strncasecmp` finds no difference in the first `n` characters. -/
def strncaseeq (a b : List Char) (n : ℕ) : Bool :=
  (a.map Char.toLower).take n==(b.map Char.toLower).take n

/-- `isspace`. -/
def isSpace (c : Char) : Bool := c.toNat=32 || (9 ≤ c.toNat && c.toNat ≤ 13)

/-- The number that a sequence of decimal digits denotes. -/
def decimal (ds : List Char) : ℕ := ds.foldl (fun n d => 10*n+(d.toNat-48)) 0

/-- What `strtoul` returns. -/
structure Strtoul where
  /-- The value. -/
  val : ℕ
  /-- The text from the end pointer on. -/
  tail : List Char
  /-- The number does not fit. -/
  erange : Bool

/-- The sign in front of a number, and what follows it. -/
def signed : List Char → Bool×List Char
  | [] => (false,[])
  | c::t => if c.toNat=45 then (true,t) else if c.toNat=43 then (false,t) else (false,c::t)

/-- `strtoul` to base ten, for an `unsigned long` below `limit`. Without digits
nothing is consumed. -/
def strtoul (limit : ℕ) (t : List Char) : Strtoul :=
  let r := signed (t.dropWhile isSpace)
  let ds := r.2.takeWhile Char.isDigit
  if ds=[] then ⟨0,t,false⟩
  else if limit ≤ decimal ds then ⟨limit-1,r.2.dropWhile Char.isDigit,true⟩
  else if r.1=true then ⟨(limit-decimal ds)%limit,r.2.dropWhile Char.isDigit,false⟩
  else ⟨decimal ds,r.2.dropWhile Char.isDigit,false⟩

/-- A text that no number goes on with, and that none begins with. -/
def EndsNumber (t : List Char) : Prop :=
  ∀ c∈t.head?,c.isDigit=false ∧ isSpace c=false ∧ c.toNat≠45 ∧ c.toNat≠43

/-- The place found by a scan, when it is in front of the end found by another. -/
def within (stop : Option ℕ) : Option ℕ → Option ℕ
  | none => none
  | some k =>
    match stop with
    | none => some k
    | some e => if k<e then some k else none

/-- The length of the text in front of a place, of an end, or of the terminator. -/
def spanLen (s : CString) (off : ℕ) (place stop : Option ℕ) : Option ℕ :=
  match place with
  | some k => some (k-off)
  | none =>
    match stop with
    | some e => some (e-off)
    | none => s.strlen off

/-- The text in front of the first such character, or all of it. -/
def upTo (c : Char) (t : List Char) : List Char := t.take (t.idxOf c)

/-- The text behind the first such character, if there is one. -/
def past (c : Char) (t : List Char) : List Char := t.drop (t.idxOf c+1)

/-- A text that runs from an offset to an end, or to the terminator. -/
structure Runs (s : CString) (off : ℕ) (v : List Char) (stop : Option ℕ) : Prop where
  /-- The text is inside. -/
  fits : off+v.length ≤ s.size
  /-- It is at the offset. -/
  at_off : v<+:s.chars.drop off
  /-- Where it ends. -/
  stop_eq : stop.getD s.size=off+v.length

variable {s : CString} {off n : ℕ} {v p q ds tail : List Char} {stop : Option ℕ} {c : Char}

/-- Folding leaves a character alone or gives a letter. -/
theorem toLower_cases (c : Char) : c.toLower=c ∨ 97 ≤ c.toLower.toNat := by
  by_cases h : c.val≥ 'A'.val ∧ c.val ≤ 'Z'.val
  · have h1 : 65 ≤ c.val.toNat := h.1
    have h2 : c.val.toNat ≤ 90 := h.2
    have hval : c.toLower.val=c.val+32 := congrArg Char.val (dif_pos h)
    right
    rw [Char.toNat,hval,UInt32.toNat_add]
    change 97 ≤ (c.val.toNat+32)%2^32
    omega
  · exact .inl (dif_neg h)

/-- A character that is no letter is only what itself is folded to. -/
theorem toLower_eq_iff {c d : Char} (hd : d.toNat<65) : c.toLower=d ↔ c=d := by
  have hself : d.toLower=d := by
    refine dif_neg ?_
    rintro ⟨h,_⟩
    have h1 : 65 ≤ d.val.toNat := h
    exact absurd h1 (Nat.not_le.mpr hd)
  constructor
  · intro h
    rcases toLower_cases c with hc|hc
    · rw [←hc,h]
    · rw [h] at hc
      omega
  · rintro rfl
    exact hself

/-- The place of a first occurrence. -/
theorem idxOf_cut (h : c∉p) : (p++c::q).idxOf c=p.length := by
  rw [List.idxOf_append_of_notMem h,List.idxOf_cons_self,Nat.add_zero]

/-- The text in front of a first occurrence. -/
theorem upTo_cut (h : c∉p) : upTo c (p++c::q)=p := by rw [upTo,idxOf_cut h,List.take_left]

/-- The text behind a first occurrence. -/
theorem past_cut (h : c∉p) : past c (p++c::q)=q := by
  rw [past,idxOf_cut h,←List.drop_drop,List.drop_left,List.drop_one,List.tail_cons]

/-- Without an occurrence all of a text is in front of it. -/
theorem upTo_of_notMem (h : c∉v) : upTo c v=v := by
  rw [upTo,List.idxOf_eq_length h,List.take_length]

/-- Without an occurrence nothing is behind it. -/
theorem past_of_notMem (h : c∉v) : past c v=[] := by
  rw [past,List.idxOf_eq_length h]
  exact List.drop_eq_nil_of_le (Nat.le_succ _)

/-- A text in front of the terminator runs to it. -/
theorem Runs.whole (h : off ≤ s.size) : Runs s off (s.chars.drop off) none where
  fits := by
    rw [List.length_drop]
    change off+(s.size-off) ≤ s.size
    omega
  at_off := List.prefix_rfl
  stop_eq := by
    rw [List.length_drop]
    change s.size=off+(s.size-off)
    omega

/-- What is dropped in front of a text that is there. -/
theorem drop_behind {l p q : List Char} (h : p++q<+:l.drop off) : q<+:l.drop (off+p.length) := by
  obtain ⟨rest,hr⟩ := h
  refine ⟨rest,?_⟩
  rw [←List.drop_drop,←hr,List.append_assoc,List.drop_left]

/-- The text behind a cut is at the offset behind it. -/
theorem drop_cut {l : List Char} (h : l.drop off=p++c::q) : l.drop (off+p.length+1)=q := by
  rw [Nat.add_assoc,←List.drop_drop,h,←List.drop_drop,List.drop_left,List.drop_one,List.tail_cons]

/-- The text behind a cut runs to the same end. -/
theorem Runs.behind (h : Runs s off (p++c::q) stop) : Runs s (off+p.length+1) q stop where
  fits := by
    have hf := h.fits
    rw [List.length_append,List.length_cons] at hf
    omega
  at_off := by
    have ht : (p++[c])++q<+:s.chars.drop off := by
      rw [List.append_assoc]
      exact h.at_off
    have hd := drop_behind ht
    rw [List.length_append,List.length_singleton,←Nat.add_assoc] at hd
    exact hd
  stop_eq := by
    rw [h.stop_eq,List.length_append,List.length_cons]
    omega

/-- The text in front of a cut runs to the cut. -/
theorem Runs.front (h : Runs s off (p++c::q) stop) : Runs s off p (some (off+p.length)) where
  fits := by
    have hf := h.fits
    rw [List.length_append] at hf
    omega
  at_off := (List.prefix_append p _).trans h.at_off
  stop_eq := rfl

/-- Copying a text that is there. -/
theorem Runs.memcpy (h : Runs s off v stop) : s.memcpy off v.length=some v := by
  obtain ⟨rest,hr⟩ := h.at_off
  rw [CString.memcpy,if_pos h.fits,←hr,List.take_left]

/-- Copying a text that is there into an array that it fits into. -/
theorem Runs.copy {α : Type} {cap : ℕ} (h : Runs s off v stop) (hcap : v.length<cap)
    (f : List Char → Option α) :
    ((s.memcpy off v.length).bind fun t => (fillArray cap t).bind f)=f v := by
  rw [h.memcpy,Option.bind_some,fillArray,if_pos hcap,Option.bind_some]

/-- Printing a text that is there. -/
theorem Runs.printed (h : Runs s off v stop) : s.printed off v.length=some v := by
  have hf := h.fits
  obtain ⟨rest,hr⟩ := h.at_off
  rw [CString.printed,CString.text,if_pos (by omega),Option.map_some,←hr,List.take_left]

/-- A scan over a text that runs to an end finds what is in the text. -/
theorem Runs.strchr (h : Runs s off v stop) (c : Char) : ∃ r,s.strchr off c=some r ∧
    within stop r=if c∈v then some (off+v.idxOf c) else none := by
  have hf := h.fits
  have he := h.stop_eq
  obtain ⟨rest,hr⟩ := h.at_off
  refine ⟨_,by rw [CString.strchr,CString.text,if_pos (by omega),Option.map_some],?_⟩
  rw [←hr]
  have hlen : s.size=off+v.length+rest.length := by
    have hl := congrArg List.length hr
    rw [List.length_append,List.length_drop] at hl
    change _=s.size-off at hl
    omega
  by_cases hc : c∈v
  · have hlt := List.idxOf_lt_length_of_mem hc
    rw [if_pos (List.mem_append_left _ hc),if_pos hc,List.idxOf_append_of_mem hc]
    cases stop with
    | none => rfl
    | some e => exact if_pos (by change e=_ at he; omega)
  · rw [if_neg hc]
    by_cases hm : c∈rest
    · rw [if_pos (List.mem_append_right _ hm),List.idxOf_append_of_notMem hc]
      have hlt := List.length_pos_of_mem hm
      cases stop with
      | none =>
        change s.size=_ at he
        omega
      | some e => exact if_neg (by change e=_ at he; omega)
    · rw [if_neg]
      · rfl
      · rw [List.mem_append,not_or]
        exact ⟨hc,hm⟩

/-- The length of a text that runs to an end. -/
theorem Runs.spanLen (h : Runs s off v stop) : spanLen s off none stop=some v.length := by
  have hf := h.fits
  have he := h.stop_eq
  cases stop with
  | none =>
    change s.size=_ at he
    rw [Strings.spanLen,CString.strlen,CString.text,if_pos (by omega),Option.map_some,
      List.length_drop]
    exact congrArg some (by change s.size-off=v.length; omega)
  | some e => exact congrArg some (by change e=_ at he; omega)

/-- A scan from a place finds the end of a first text, and what it is cut from. -/
theorem Runs.upto (h : off ≤ s.size) (c : Char) : ∃ v r,s.strchr off c=some r ∧ Runs s off v r ∧
    (r=none ∧ c∉v ∧ s.chars.drop off=v ∨
      ∃ q,r=some (off+v.length) ∧ c∉v ∧ s.chars.drop off=v++c::q) := by
  have hw := Runs.whole h
  obtain ⟨r,hr,hin⟩ := hw.strchr c
  have hnone : within none r=r := by cases r <;> rfl
  rw [hnone] at hin
  by_cases hc : c∈s.chars.drop off
  · rw [if_pos hc] at hin
    obtain ⟨p,q,hcut,hp⟩ := List.eq_append_cons_of_mem hc
    rw [hcut] at hw hin
    rw [idxOf_cut hp] at hin
    exact ⟨p,r,hr,hin ▸ hw.front,.inr ⟨q,hin,hp,hcut⟩⟩
  · rw [if_neg hc] at hin
    exact ⟨_,r,hr,hin ▸ hw,.inl ⟨hin,hc,rfl⟩⟩

/-- A digit is neither a blank nor a sign. -/
theorem digit_plain {c : Char} (h : c.isDigit=true) :
    isSpace c=false ∧ c.toNat≠45 ∧ c.toNat≠43 := by
  rw [Char.isDigit,Bool.and_eq_true,decide_eq_true_iff,decide_eq_true_iff] at h
  have hlow : 48 ≤ c.toNat := h.1
  have hspace : isSpace c=false := by
    rw [isSpace]
    simp
    omega
  exact ⟨hspace,by omega,by omega⟩

/-- What a number begins with, or what follows the empty one, is passed over as
it is. -/
theorem number_front (hd : ∀ d∈ds,d.isDigit=true) (ht : EndsNumber tail) :
    signed ((ds++tail).dropWhile isSpace)=(false,ds++tail) := by
  have hplain : ∀ c∈(ds++tail).head?,isSpace c=false ∧ c.toNat≠45 ∧ c.toNat≠43 := by
    cases ds with
    | nil => exact fun c hc => (ht c hc).2
    | cons d ds =>
      intro c hc
      rw [←Option.some.inj hc]
      exact digit_plain (hd d List.mem_cons_self)
  cases hl : ds++tail with
  | nil => rfl
  | cons c t =>
    obtain ⟨hs,hm,hp⟩ := hplain c (by rw [hl]; rfl)
    rw [List.dropWhile_cons,hs,if_neg Bool.false_ne_true,signed,if_neg hm,if_neg hp]

/-- The digits of a number are all that stand in front of what ends it. -/
theorem number_digits (hd : ∀ d∈ds,d.isDigit=true) (ht : EndsNumber tail) :
    (ds++tail).takeWhile Char.isDigit=ds ∧ (ds++tail).dropWhile Char.isDigit=tail := by
  rw [List.takeWhile_append_of_pos hd,List.dropWhile_append_of_pos hd]
  cases tail with
  | nil => exact ⟨List.append_nil ds,rfl⟩
  | cons c t =>
    have hc : c.isDigit=false := (ht c rfl).1
    rw [List.takeWhile_cons,List.dropWhile_cons,hc]
    exact ⟨List.append_nil ds,rfl⟩

/-- A number without a sign is converted exactly, or does not fit. -/
theorem strtoul_digits {limit : ℕ} (hd : ∀ d∈ds,d.isDigit=true) (ht : EndsNumber tail)
    (hl : 0<limit) : strtoul limit (ds++tail)=
      if limit ≤ decimal ds then ⟨limit-1,tail,true⟩ else ⟨decimal ds,tail,false⟩ := by
  obtain ⟨htake,hdrop⟩ := number_digits hd ht
  rw [strtoul,number_front hd ht]
  dsimp only
  rw [htake,hdrop,if_neg Bool.false_ne_true]
  by_cases hds : ds=[]
  · subst hds
    have hzero : ¬limit ≤ decimal [] := Nat.not_le.mpr hl
    rw [if_pos rfl,if_neg hzero]
    rfl
  · rw [if_neg hds]

end Yancat.Strings
