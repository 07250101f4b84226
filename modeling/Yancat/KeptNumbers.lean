import Yancat.Endpoints

/-!
# Ports and descriptors as they are written

A converted number goes through a cast to a signed word of 32 bits, and a port
through another one to 16 bits. Whatever the system answers, what comes out is
the number exactly when it is in the range of the smallest type on its way.
-/

namespace Yancat.KeptNumbers

open Strings Common WordArithmetic Parse Options Fdpack Endpoints

/-- The port field of a specification. -/
def portField (t : List Char) : Option (List Char) :=
  if ':'∈t then some (upTo ':' (past ':' t)) else none

/-- A specification that is accepted with a port field has its number as the port. -/
def PortKept (f : List Char) (v : ℕ) : Prop :=
  ∀ (C : SockConsts) (s : CString) (fuel off dom : ℕ) (a : NetpntS),s.size<fuel →
    portField (s.chars.drop off)=some f → spAddrParse C s fuel off dom=some (.ok a) →
    a.port.toNat=v

/-- A descriptor that is accepted is the one with the number, whatever the system
answers. -/
def FdKept (f : List Char) (v : ℕ) : Prop :=
  ∀ (S : Sys) (dir : Dir) (sync : Bool) (p : FdpackS),
    fdCtor S dir (some f) sync=some p → p.fd.toInt=v

variable {f u : List Char} {v : ℕ}

/-- A colon ends a number, and so does the end of the text. -/
theorem endsNumber_colon (q : List Char) : EndsNumber (':'::q) := by
  intro c hc
  rw [←Option.some.inj hc]
  decide

/-- The end of a text ends a number. -/
theorem endsNumber_nil : EndsNumber [] := fun c hc => by cases hc

/-- A number that fits is converted, up to a colon. -/
theorem getUl_field (hd : ∀ d∈f,d.isDigit=true) (hf : decimal f<wordSize)
    (hu : u=f ∨ ∃ q,u=f++ ':'::q) : getUl u=(decimal f,none) := by
  have hpos : 0<wordSize := by decide
  rcases hu with rfl|⟨q,rfl⟩
  · have hs := strtoul_digits hd endsNumber_nil hpos
    rw [List.append_nil,if_neg (Nat.not_le.mpr hf)] at hs
    rw [getUl,hs]
    rfl
  · rw [getUl,strtoul_digits hd (endsNumber_colon q) hpos,if_neg (Nat.not_le.mpr hf)]
    rfl

/-- A text up to a colon. -/
theorem upTo_split (u : List Char) : u=upTo ':' u ∨ ∃ q,u=upTo ':' u++ ':'::q := by
  by_cases h : ':'∈u
  · obtain ⟨p,q,rfl,hp⟩ := List.eq_append_cons_of_mem h
    exact .inr ⟨q,by rw [upTo_cut hp]⟩
  · exact .inl (upTo_of_notMem h).symm

/-- A number that is converted exactly fits. -/
theorem fits_of_getUl (hd : ∀ d∈f,d.isDigit=true) (h : getUl f=(decimal f,none)) :
    decimal f<wordSize := by
  by_contra hf
  have hpos : 0<wordSize := by decide
  have hs := strtoul_digits hd endsNumber_nil hpos
  rw [List.append_nil,if_pos (Nat.not_lt.mp hf)] at hs
  rw [getUl,hs] at h
  cases congrArg Prod.snd h

/-- What both casts leave of a number other than zero is the number exactly when it
is in the range of a port. -/
theorem port_iff (hv : v≠0) : (portValue v).toNat=v ↔ v ≤ 65535 := by
  constructor
  · intro h
    have hlt := (portValue v).isLt
    omega
  · intro hle
    rw [portValue,if_neg (by omega),BitVec.toNat_ofNat]
    omega

/-- An accepted specification is one for a known protocol. -/
theorem spDom_of_ok {C : SockConsts} {s : CString} {fuel off dom : ℕ} {a : NetpntS}
    (h : spAddrParse C s fuel off dom=some (.ok a)) : ∃ proto,spDom C dom=some proto := by
  rw [spAddrParse] at h
  cases hp : spDom C dom with
  | none =>
    rw [hp] at h
    cases h
  | some proto => exact ⟨proto,rfl⟩

/-- The port of an accepted specification is its number exactly when that is in
range. -/
theorem accepted_port {C : SockConsts} {s : CString} {fuel off dom : ℕ} {a : NetpntS}
    (hd : ∀ d∈f,d.isDigit=true) (h : getUl f=(decimal f,none)) (hv : decimal f≠0)
    (hfuel : s.size<fuel) (hfield : portField (s.chars.drop off)=some f)
    (ha : spAddrParse C s fuel off dom=some (.ok a)) :
    a.port.toNat=decimal f ↔ decimal f ≤ 65535 := by
  obtain ⟨proto,hproto⟩ := spDom_of_ok ha
  have hport := (spAddrParse_meaning hfuel hproto ha).2.port
  rw [portField] at hfield
  split at hfield
  · next hm =>
    have hsplit := upTo_split (past ':' (s.chars.drop off))
    rw [Option.some.inj hfield] at hsplit
    rw [hport,if_pos hm,getUl_field hd (fits_of_getUl hd h) hsplit]
    exact port_iff hv
  · cases hfield

/-- No digit is a colon. -/
theorem colon_notMem (hd : ∀ d∈f,d.isDigit=true) : ':'∉f := fun h => by
  cases hd ':' h

/-- A specification with nothing but a number for its port is accepted. -/
theorem accepts_port (hd : ∀ d∈f,d.isDigit=true) (h : getUl f=(decimal f,none))
    (hnul : nul∉ ':'::f) : portField (':'::f)=some f ∧
      ∃ a,spAddrParse linux ⟨':'::f,hnul⟩ (f.length+2) 0 specIsTcp=some (.ok a) := by
  have hcut : past ':' (':'::f)=f := past_cut (p:=[]) List.not_mem_nil
  have hhost : hostText (':'::f)=[] := upTo_cut (p:=[]) List.not_mem_nil
  have hnot := colon_notMem hd
  have hm : ':'∈ ':'::f := List.mem_cons_self
  have hproto : spDom linux specIsTcp=some linux.ipprotoTcp := rfl
  refine ⟨?_,?_⟩
  · rw [portField,if_pos hm,hcut,upTo_of_notMem hnot]
  · obtain ⟨r,hr,herr,_⟩ := refAddr_eq hproto (':'::f)
    have hgood : ¬∃ e,r=.error e := by
      rw [herr,hcut,h,hhost,items,optText,hcut,past_of_notMem hnot]
      rintro (⟨_,hn⟩|hl|⟨i,hi,_⟩)
      · exact hn rfl
      · exact absurd hl (by decide)
      · cases hi
    have heq : spAddrParse linux ⟨':'::f,hnul⟩ (f.length+2) 0 specIsTcp=
        refAddr linux linux.ipprotoTcp (':'::f) :=
      spAddrParse_eq (Nat.zero_le _) (Nat.lt_succ_self _) hproto
    rcases r with e|a
    · exact absurd ⟨e,rfl⟩ hgood
    · exact ⟨a,heq.trans hr⟩

/-- The terminator is no digit and no colon. -/
theorem nul_notMem (hd : ∀ d∈f,d.isDigit=true) : nul∉ ':'::f := fun h => by
  rcases List.mem_cons.mp h with h|h
  · cases h
  · cases hd nul h

/-- A port is kept exactly when it is in range. -/
theorem portKept_iff (hd : ∀ d∈f,d.isDigit=true) (h : getUl f=(decimal f,none))
    (hv : decimal f≠0) : PortKept f (decimal f) ↔ decimal f ≤ 65535 := by
  constructor
  · intro hkept
    obtain ⟨hfront,a,ha⟩ := accepts_port hd h (nul_notMem hd)
    have hfuel : CString.size ⟨':'::f,nul_notMem hd⟩<f.length+2 := Nat.lt_succ_self _
    have hfield : portField (CString.chars ⟨':'::f,nul_notMem hd⟩ |>.drop 0)=some f := hfront
    exact (accepted_port hd h hv hfuel hfield ha).mp (hkept _ _ _ _ _ a hfuel hfield ha)
  · intro hle C s fuel off dom a hfuel hfield ha
    exact (accepted_port hd h hv hfuel hfield ha).mpr hle

/-- A descriptor is kept exactly when it is in range. -/
theorem fdKept_iff (h : getUl f=(v,none)) : FdKept f v ↔ v ≤ 2147483647 := by
  have hrange : v<2^31 ↔ v ≤ 2147483647 := Nat.lt_succ_iff
  have hfd : (getUl f).1=v := congrArg Prod.fst h
  constructor
  · intro hkept
    have hc : Constructible (opened [BitVec.ofNat 32 v]) .inp (.fd f) := by
      refine ⟨congrArg Prod.snd h,.rdwr,?_,by decide,by decide⟩
      rw [hfd]
      exact if_pos (List.mem_singleton_self _)
    have hi := hkept _ .inp false _ (fdCtor_ok hc)
    rw [hfd] at hi
    exact hrange.mp ((toInt_ofNat_iff v).mp hi)
  · intro hle S dir sync p hp
    by_cases hc : Constructible S dir (.fd f)
    · rw [fdCtor_ok hc,hfd] at hp
      cases hp
      exact (toInt_ofNat_iff v).mpr (hrange.mpr hle)
    · rw [fdCtor_fail hc] at hp
      cases hp

/-- For a decimal number that is converted without an error, every accepted port
other than zero is the number exactly up to the largest port, and every accepted
descriptor exactly up to the largest signed word. -/
theorem numbers_kept (f : List Char) (hd : ∀ d∈f,d.isDigit=true)
    (h : getUl f=(decimal f,none)) :
    ((decimal f≠0 → PortKept f (decimal f)) ↔ decimal f ≤ 65535) ∧
    (FdKept f (decimal f) ↔ decimal f ≤ 2147483647) := by
  refine ⟨?_,fdKept_iff h⟩
  by_cases hv : decimal f=0
  · refine iff_of_true (fun hne => absurd hv hne) ?_
    rw [hv]
    exact Nat.zero_le _
  · rw [imp_iff_right hv]
    exact portKept_iff hd h hv

/-- The largest port. -/
theorem numbers_kept_largest : PortKept "65535".toList 65535 ∧ FdKept "65535".toList 65535 := by
  have hv : decimal "65535".toList=65535 := rfl
  have hd : ∀ d∈"65535".toList,d.isDigit=true := List.all_eq_true.mp rfl
  obtain ⟨hport,hfd⟩ := numbers_kept "65535".toList hd rfl
  rw [hv] at hport hfd
  exact ⟨hport.mpr le_rfl (by omega),hfd.mpr (by omega)⟩

/-- One more is stored as port zero, and a descriptor of 2^32 is descriptor zero. -/
theorem numbers_narrowed :
    (spAddrParse linux ⟨":65536".toList,by decide⟩ 7 0 specIsTcp).map
      (Except.map NetpntS.port)=some (.ok 0) ∧ ¬PortKept "65536".toList 65536 ∧
    fdCtor (opened [0]) .inp (some "4294967296".toList) false=some ⟨.fdfd,0,.inp,false⟩ ∧
    ¬FdKept "4294967296".toList 4294967296 := by
  have hv : decimal "65536".toList=65536 := rfl
  have hd : ∀ d∈"65536".toList,d.isDigit=true := List.all_eq_true.mp rfl
  have hport : getUl "65536".toList=(decimal "65536".toList,none) := rfl
  have hfd : getUl "4294967296".toList=(4294967296,none) := rfl
  have hne : decimal "65536".toList≠0 := by
    rw [hv]
    omega
  refine ⟨by decide,fun hk => ?_,by decide,fun hk => ?_⟩
  · rw [←hv,portKept_iff hd hport hne,hv] at hk
    omega
  · rw [fdKept_iff hfd] at hk
    omega

end Yancat.KeptNumbers
