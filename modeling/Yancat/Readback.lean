import Yancat.Report

/-!
# Reading a report back

A report of `fd_info` is read line by line, as someone would who has it on the
screen and nothing else: the type, the number of the descriptor, the path, or what
is said of a socket. What is read makes up a specification, and that is the
canonical one of the endpoint that was reported.
-/

namespace Yancat.Report

open Strings Common Parse Options Fdpack Endpoints WordArithmetic

/-- What the first line says, behind its label. -/
def lineValue (r : List Char) : List Char := (upTo '\n' r).drop 9

/-- What is behind the first line. -/
def nextLines (r : List Char) : List Char := past '\n' r

/-- The host on a line that ends with its address in brackets. -/
def hostOf (v : List Char) : List Char := ((past '(' v.reverse).drop 1).reverse

/-- A character that is not put between the options or around them. -/
def solid (c : Char) : Bool := c≠ ' ' && c≠ '\n'

/-- The specification of a socket, from its report behind the label of the host. No
part of it but the options has a colon in it, and these are listed with blanks. -/
def socketSpec (C : SockConsts) (u : List Char) : List Char :=
  let port := past ':' u
  let proto := past ':' port
  (if (upTo '\n' proto).drop 1=printNat C.ipprotoTcp then 't' else 'u'):: ':'::
    (hostOf (upTo ':' u)++ ':'::((upTo '\n' port).drop 2++ ':'::(past ':' proto).filter solid))

/-- The specification that a report makes up. -/
def respecify (C : SockConsts) (r : List Char) : List Char :=
  let body := nextLines (nextLines (nextLines r))
  if lineValue r="file".toList then 'f':: ':'::(body.drop 9).dropLast
  else if lineValue r="socket".toList then socketSpec C (body.drop 9)
  else 'd':: ':'::lineValue (nextLines (nextLines r))

variable {C : SockConsts} {ntoa : BitVec 32 → Option (List Char)} {np : NetpntS} {p : FdpackS}

/-- A line is read, and what is behind it. -/
theorem line_read {label v t : List Char} (hlen : label.length=9) (hn : '\n'∉label++v) :
    lineValue (label++v++ '\n'::t)=v ∧ nextLines (label++v++ '\n'::t)=t := by
  refine ⟨?_,past_cut hn⟩
  rw [lineValue,upTo_cut hn,←hlen,List.drop_left]

/-- The name of a type is on one line. -/
theorem kind_line (t : FdtypeS) : '\n'∉kind t := by
  have hall : '\n'∉"fd".toList ∧ '\n'∉"file".toList ∧ '\n'∉"socket".toList := by decide
  cases t with
  | fdfd => exact hall.1
  | fdfile path => exact hall.2.1
  | fdsock saddr np waitall => exact hall.2.2

/-- The three lines that every report begins with. -/
theorem head_read (p : FdpackS) (t : List Char) :
    lineValue (fdInfo_ p++t)=kind p.type ∧
      lineValue (nextLines (nextLines (fdInfo_ p++t)))=printInt p.fd.toInt ∧
      nextLines (nextLines (nextLines (fdInfo_ p++t)))=t := by
  have hlines : ∃ side,'\n'∉"  dir:   ".toList++side ∧ fdInfo_ p++t=
      "  type:  ".toList++kind p.type++ '\n'::("  dir:   ".toList++side++ '\n'::
        ("  fd:    ".toList++printInt p.fd.toInt++ '\n'::t)) := by
    refine ⟨if p.dir=.out then "output".toList else "input".toList,?_,?_⟩
    · split <;> decide
    · unfold fdInfo_
      simp only [List.append_assoc]
      rfl
  obtain ⟨side,hside,hlines⟩ := hlines
  have hkind : '\n'∉"  type:  ".toList++kind p.type := by
    rw [List.mem_append,not_or]
    exact ⟨by decide,kind_line p.type⟩
  have hfd : '\n'∉"  fd:    ".toList++printInt p.fd.toInt := by
    rw [List.mem_append,not_or]
    exact ⟨by decide,notMem_printInt (by decide) (by decide)⟩
  obtain ⟨htype,hrest⟩ := line_read (t:=_) (by rfl) hkind
  obtain ⟨_,hrest'⟩ := line_read (t:=_) (by rfl) hside
  obtain ⟨hnum,hbody⟩ := line_read (t:=t) (by rfl) hfd
  rw [hlines]
  exact ⟨htype,by rw [hrest,hrest',hnum],by rw [hrest,hrest',hbody]⟩

/-- The report of a descriptor. -/
theorem respecify_fd (ht : p.type=.fdfd) :
    respecify C (fdInfo C ntoa p)=canonical C (.fd (printInt p.fd.toInt)) := by
  obtain ⟨hkind,hnum,_⟩ := head_read p []
  rw [List.append_nil] at hkind hnum
  have hfile : ¬kind .fdfd="file".toList := by decide
  have hsock : ¬kind .fdfd="socket".toList := by decide
  rw [fdInfo,ht]
  dsimp only
  rw [respecify,hkind,ht,if_neg hfile,if_neg hsock,hnum,canonical]

/-- The report of a file, whatever its path. -/
theorem respecify_file {path : List Char} (ht : p.type=.fdfile path) :
    respecify C (fdInfo C ntoa p)=canonical C (.file path) := by
  have hfile : kind (.fdfile path)="file".toList := rfl
  have hpath : ("  path:  ".toList++path++"\n".toList).drop 9=path++['\n'] := rfl
  obtain ⟨hkind,_,hbody⟩ := head_read p ("  path:  ".toList++path++"\n".toList)
  rw [fdInfo,ht]
  dsimp only
  rw [fdInfoF,List.append_assoc,List.append_assoc,←List.append_assoc "  path:  ".toList,respecify,
    hkind,ht,if_pos hfile,hbody,hpath,List.dropLast_concat,canonical]

/-- The host is what is in front of its address. -/
theorem hostOf_read {host addr : List Char} (h : '('∉addr) :
    hostOf (host++ ' ':: '('::addr)=host := by
  have hrev : (host++ ' ':: '('::addr).reverse=addr.reverse++ '(':: ' '::host.reverse := by
    rw [List.reverse_append,List.reverse_cons,List.reverse_cons,List.append_assoc,
      List.append_assoc]
    rfl
  have hno : '('∉addr.reverse := fun hc => h (List.mem_reverse.mp hc)
  rw [hostOf,hrev,past_cut hno,List.drop_succ_cons,List.drop_zero,List.reverse_reverse]

/-- A text without blanks and line ends is solid. -/
theorem solid_of_notMem {t : List Char} (hblank : ' '∉t) (hline : '\n'∉t) :
    ∀ c∈t,solid c=true := by
  intro c hc
  rw [solid,Bool.and_eq_true,decide_eq_true_iff,decide_eq_true_iff]
  exact ⟨fun h => hblank (h ▸ hc),fun h => hline (h ▸ hc)⟩

/-- Nothing that is printed of an option is left out with the blanks. -/
theorem optionText_solid {e : NoptsS} {t : List Char} (h : optionText C e=some t) :
    ∀ c∈t,solid c=true := by
  obtain ⟨str,hstr,rfl⟩ := Option.map_eq_some_iff.mp h
  obtain ⟨b,hb,rfl⟩ := Option.map_eq_some_iff.mp hstr
  have hin : b.name∈optNames := map_name C ▸ List.mem_map_of_mem (List.mem_of_find?_eq_some hb)
  have hall : ∀ t∈optNames,' '∉t ∧ '\n'∉t := by decide
  have hval : ∀ c∈printInt e.val.toInt,solid c=true :=
    solid_of_notMem (notMem_printInt (by decide) (by decide))
      (notMem_printInt (by decide) (by decide))
  intro c hc
  rcases List.mem_append.mp hc with hc|hc
  · exact solid_of_notMem (hall _ hin).1 (hall _ hin).2 c hc
  · rcases List.mem_cons.mp hc with rfl|hc
    · rfl
    · exact hval c hc

/-- Without the blanks the options are listed as in a specification. -/
theorem filter_intercalate {l : List (List Char)} (h : ∀ t∈l,∀ c∈t,solid c=true) :
    (List.intercalate ", ".toList l).filter solid=List.intercalate [','] l := by
  induction l with
  | nil => rfl
  | cons t ts ih =>
    have ht : t.filter solid=t := List.filter_eq_self.mpr (h t List.mem_cons_self)
    cases ts with
    | nil => rw [List.intercalate_singleton,List.intercalate_singleton,ht]
    | cons u us =>
      have hsep : ", ".toList.filter solid=[','] := rfl
      rw [List.intercalate_cons_cons,List.intercalate_cons_cons,List.filter_append,
        List.filter_append,ht,hsep,ih fun v hv => h v (List.mem_cons_of_mem t hv)]

/-- The last line of a report are the options. -/
theorem optionLine_read (opts : List NoptsS) :
    ('\n'::optionLine C opts).filter solid=List.intercalate [','] (optionTexts C opts) := by
  have hsolid : ∀ t∈optionTexts C opts,∀ c∈t,solid c=true := by
    intro t ht
    obtain ⟨e,_,he⟩ := List.mem_filterMap.mp ht
    exact optionText_solid he
  have hhead : ∀ l : List Char,('\n'::l).filter solid=l.filter solid := fun _ => rfl
  rw [hhead,optionLine]
  split
  · next hnil =>
    rw [hnil]
    rfl
  · have hfront : "   ".toList.filter solid=[] := rfl
    have hback : "\n".toList.filter solid=[] := rfl
    rw [List.filter_append,List.filter_append,hfront,hback,List.nil_append,List.append_nil,
      filter_intercalate hsolid]

/-- No separator is printed of a natural number. -/
theorem notMem_printNat {n : ℕ} {c : Char} (hc : c.isDigit=false) : c∉printNat n := fun h => by
  rw [printNat_digits n c h] at hc
  cases hc

/-- Numbers are told by what is printed. -/
theorem printNat_inj {m n : ℕ} (h : printNat m=printNat n) : m=n := by
  rw [←decimal_printNat m,h,decimal_printNat]

/-- What the report of a socket says behind the label of the host. -/
theorem socket_lines (C : SockConsts) (ntoa : BitVec 32 → Option (List Char)) (p : FdpackS)
    (saddr : SockaddrIn) (np : NetpntS) : fdInfoS C ntoa p saddr np=fdInfo_ p++("  host:  ".toList++
      (np.host++ ' ':: '('::((ntoa saddr.addr).getD ['?']++")\n  port".toList)++ ':'::
        ("  ".toList++printNat np.port.toNat++ '\n'::"  proto".toList++ ':'::
          (' '::printNat np.dom++ '\n'::
            ("  options (".toList++printNat np.opts.length++")".toList)++ ':'::
              '\n'::optionLine C np.opts)))) := by
  unfold fdInfoS
  simp only [List.append_assoc,List.cons_append]
  rfl

/-- The report of a socket is read by its colons. -/
theorem respecify_host {saddr : SockaddrIn} {waitall : Bool} (ht : p.type=.fdsock saddr np waitall)
    (u : List Char) : respecify C (fdInfo_ p++("  host:  ".toList++u))=socketSpec C u := by
  obtain ⟨hkind,_,hbody⟩ := head_read p ("  host:  ".toList++u)
  have hfile : ¬kind (.fdsock saddr np waitall)="file".toList := by
    change ¬"socket".toList="file".toList
    decide
  have hsock : kind (.fdsock saddr np waitall)="socket".toList := rfl
  have hdrop : ("  host:  ".toList++u).drop 9=u := rfl
  rw [respecify,hkind,hbody,ht,if_neg hfile,if_pos hsock,hdrop]

/-- What is in front of the first of two separators. -/
theorem upTo_front {c : Char} {p q x : List Char} (h : c∉p) : upTo c (p++c::q++x)=p := by
  rw [List.append_assoc,List.cons_append,upTo_cut h]

/-- The report of a socket, whatever its host. -/
theorem respecify_sock {saddr : SockaddrIn} {waitall : Bool} (hs : Sound C np)
    (hntoa : ∀ a t,ntoa a=some t → ':'∉t ∧ '('∉t) (ht : p.type=.fdsock saddr np waitall) :
    respecify C (fdInfo C ntoa p)=canonical C (.sock np) := by
  have haddr : ':'∉(ntoa saddr.addr).getD ['?'] ∧ '('∉(ntoa saddr.addr).getD ['?'] := by
    cases ha : ntoa saddr.addr with
    | none => decide
    | some t => exact hntoa _ t ha
  rw [fdInfo,ht]
  dsimp only
  rw [socket_lines,respecify_host ht]
  -- the three colons in front of the options
  have hhost : ':'∉np.host++ ' ':: '('::((ntoa saddr.addr).getD ['?']++")\n  port".toList) := by
    simp only [List.mem_append,List.mem_cons,not_or]
    exact ⟨hs.colon,by decide,by decide,haddr.1,by decide⟩
  have hport : ':'∉"  ".toList++printNat np.port.toNat++ '\n'::"  proto".toList := by
    simp only [List.mem_append,not_or]
    exact ⟨⟨by decide,notMem_printNat (by decide)⟩,by decide⟩
  have hproto : ':'∉ ' '::printNat np.dom++ '\n'::
      ("  options (".toList++printNat np.opts.length++")".toList) := by
    simp only [List.mem_append,List.mem_cons,not_or]
    exact ⟨⟨by decide,notMem_printNat (by decide)⟩,by decide,
      ⟨by decide,notMem_printNat (by decide)⟩,by decide⟩
  have hbrack : '('∉(ntoa saddr.addr).getD ['?']++")\n  port".toList := by
    rw [List.mem_append,not_or]
    exact ⟨haddr.2,by decide⟩
  have hportline : '\n'∉"  ".toList++printNat np.port.toNat := by
    rw [List.mem_append,not_or]
    exact ⟨by decide,notMem_printNat (by decide)⟩
  have hprotoline : '\n'∉ ' '::printNat np.dom := by
    rw [List.mem_cons,not_or]
    exact ⟨by decide,notMem_printNat (by decide)⟩
  have hdom : printNat np.dom=printNat C.ipprotoTcp ↔ np.dom=C.ipprotoTcp :=
    ⟨printNat_inj,congrArg printNat⟩
  have hblank : ∀ v,("  ".toList++v).drop 2=v := fun _ => rfl
  rw [socketSpec,upTo_cut hhost,past_cut hhost,past_cut hport,past_cut hproto,hostOf_read hbrack,
    upTo_front hportline,hblank,upTo_front hprotoline,List.drop_succ_cons,List.drop_zero,
    optionLine_read,canonical,specText]
  exact congrArg (·:: ':'::_) (if_congr hdom rfl rfl)

/-- A descriptor is constructed again from its number. -/
theorem fdCtor_printed {S : Sys} {dir : Dir} {t : List Char} {sync : Bool}
    (h : fdCtor S dir (some t) sync=some p) :
    fdCtor S dir (some (printInt p.fd.toInt)) sync=some p := by
  have hread : getUl (printInt p.fd.toInt)=((p.fd.toInt%wordSize).toNat,none) := by
    have hsmall : p.fd.toInt.natAbs<wordSize := by
      have hlt := p.fd.isLt
      rw [BitVec.toInt_eq_toNat_cond,wordSize_eq]
      split <;> omega
    have hends : EndsNumber [] := fun c hc => by cases hc
    have hback := strtoul_printInt hsmall hends
    rw [List.append_nil] at hback
    rw [getUl,hback]
    rfl
  obtain ⟨_,⟨text,htext,hfd⟩,_⟩ := fdCtor_some h
  obtain rfl := Option.some.inj htext
  rw [fdCtor,Option.bind_some] at h ⊢
  dsimp only at h ⊢
  split at h
  · cases h
  · rw [hread,if_neg (not_not_intro rfl),ofNat_emod,hfd]
    exact h

/-- A printed number is text. -/
theorem printInt_text (x : ℤ) : nul∉printInt x := notMem_printInt (by decide) (by decide)

/-- The endpoint that a report stands for: the default port is in the place of zero, and
a descriptor goes by its number. -/
def reported (p : FdpackS) : Endpoint → Endpoint
  | .fd _ => .fd (printInt p.fd.toInt)
  | .file path => .file path
  | .sock np => .sock (withPort np)

/-- The report of an endpoint that was constructed from an accepted specification makes
up a specification again, which is parsed on either side to the same endpoint, but
that port zero has become the default one and that a descriptor is asked for by its
number. From that number the same descriptor is constructed. Every option of a
socket is reported. -/
theorem report_round_trip (C : SockConsts) (ntoa : BitVec 32 → Option (List Char))
    (hntoa : ∀ a t,ntoa a=some t → ':'∉t ∧ '('∉t) (spec : CString) (S : Sys) (dir : Dir)
    (sync msgwait : Bool) (q : Endpoint) (p : FdpackS)
    (h : optSubspec C spec dir=some (.ok q)) (hp : construct S dir sync msgwait q=some p) :
    (∃ r : CString,r.chars=respecify C (fdInfo C ntoa p) ∧
      ∀ dir',optSubspec C r dir'=some (.ok (reported p q))) ∧
    (∀ t,q=.fd t → construct S dir sync msgwait (reported p q)=some p) ∧
    ∀ np,q=.sock np → (optionTexts C np.opts).length=np.opts.length := by
  have hq := optSubspec_accepted h
  refine ⟨?_,?_,?_⟩
  · cases q with
    | fd t =>
      have hacc : Accepted C (.fd (printInt p.fd.toInt)) := printInt_text _
      exact ⟨⟨_,canonical_text hacc⟩,(respecify_fd (fdCtor_some hp).1).symm,
        optSubspec_canonical hacc rfl⟩
    | file path =>
      exact ⟨⟨_,canonical_text hq⟩,(respecify_file (fdCtorF_some hp)).symm,
        optSubspec_canonical hq rfl⟩
    | sock np =>
      obtain ⟨_,_,saddr,waitall,htype⟩ := fdCtorS_some hp
      exact ⟨⟨_,canonical_text hq⟩,(respecify_sock hq hntoa htype).symm,
        optSubspec_canonical hq rfl⟩
  · rintro t rfl
    exact fdCtor_printed hp
  · rintro np rfl
    exact (optionTexts_items hq.settled.nonzero hq.settled.table.known).1

/-- A specification with values of several forms. -/
def mixed : CString := ⟨"u:h:80:SO_SNDBUF=-1,ip_tos=IPTOS_LOWCOST|3".toList,by decide⟩

/-- A descriptor with a sign in front of its number. -/
def plusFive : CString := ⟨"d:+5".toList,by decide⟩

/-- A system with one descriptor open, where every host has the same address. -/
def oneHost : Sys := {Endpoints.opened [5] with gethostbyname := fun _ => some ⟨4,2,0x7f000001⟩}

/-- There the report of a socket is parsed again on the other side, and a descriptor is
asked for by its number. -/
theorem report_round_trip_mixed :
    (∃ r : CString,r.chars="u:h:80:SO_SNDBUF=-1,IP_TOS=3,SO_REUSEADDR=1".toList ∧
      optSubspec linux r .inp=optSubspec linux mixed .out) ∧
    ∃ r : CString,r.chars="d:5".toList ∧ optSubspec linux r .out=some (.ok (.fd ['5'])) := by
  have hntoa : ∀ (a : BitVec 32) (t : List Char),
      (fun _ => some "127.0.0.1".toList) a=some t → ':'∉t ∧ '('∉t := by
    intro a t ht
    cases ht
    decide
  constructor
  · have hq : optSubspec linux mixed .out=
        some (.ok (.sock ⟨17,80,[⟨7,1,-1⟩,⟨1,0,3⟩,⟨2,1,1⟩],['h']⟩)) := by decide +kernel
    obtain ⟨⟨r,hr,hread⟩,_⟩ :=
      report_round_trip linux _ hntoa mixed oneHost .out false false _ _ hq rfl
    exact ⟨r,hr.trans (by decide +kernel),(hread .inp).trans hq.symm⟩
  · have hq : optSubspec linux plusFive .inp=some (.ok (.fd ['+','5'])) := by decide +kernel
    obtain ⟨⟨r,hr,hread⟩,_⟩ :=
      report_round_trip linux _ hntoa plusFive oneHost .inp false false _
        ⟨.fdfd,5,.inp,false⟩ hq rfl
    exact ⟨r,hr.trans (by decide +kernel),hread .out⟩

end Yancat.Report
