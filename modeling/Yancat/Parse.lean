import Yancat.Common

/-!
# Network endpoint specifications

The table of socket options with its defaults, and the parser of
`host:port:options`. Pointers into the specification are offsets, every
dereference of one fails past the terminator, and every array is written through
its capacity: a parse with a result has stayed inside. The loops run on fuel.
-/

namespace Yancat.Parse

open Strings Common

/-- Longest option name or value piece, with its terminator. -/
def soptLen : ℕ := 40

/-- Number of table entries. -/
def soptCnt : ℕ := 16

/-- Longest host name, with its terminator. -/
def hostLen : ℕ := 128

/-- The port without a port field. -/
def defPort : BitVec 16 := 10841

/-- The argument for a TCP endpoint. -/
def specIsTcp : ℕ := 1

/-- The argument for a UDP endpoint. -/
def specIsUdp : ℕ := 2

/-- What the system headers define. An option or a value that the system does
not have is zero. -/
structure SockConsts where
  /-- Level of the IP options. -/
  ipprotoIp : ℕ
  /-- Level of the socket options. -/
  solSocket : ℕ
  /-- The TCP protocol, and the level of its options. -/
  ipprotoTcp : ℕ
  /-- The UDP protocol. -/
  ipprotoUdp : ℕ
  /-- Type of service. -/
  ipTos : ℕ
  /-- Reuse of local addresses. -/
  soReuseaddr : ℕ
  /-- Size of the send buffer. -/
  soSndbuf : ℕ
  /-- Size of the receive buffer. -/
  soRcvbuf : ℕ
  /-- Largest segment. -/
  tcpMaxseg : ℕ
  /-- No delay. -/
  tcpNodelay : ℕ
  /-- Low delay. -/
  iptosLowdelay : ℕ
  /-- High throughput. -/
  iptosThroughput : ℕ
  /-- High reliability. -/
  iptosReliability : ℕ
  /-- Low cost. -/
  iptosLowcost : ℕ
  /-- TCP is not the number for no endpoint. -/
  tcp_ne : ipprotoTcp≠0
  /-- UDP is not the number for no endpoint. -/
  udp_ne : ipprotoUdp≠0

/-- The values on Linux. -/
def linux : SockConsts where
  ipprotoIp := 0
  solSocket := 1
  ipprotoTcp := 6
  ipprotoUdp := 17
  ipTos := 1
  soReuseaddr := 2
  soSndbuf := 7
  soRcvbuf := 8
  tcpMaxseg := 2
  tcpNodelay := 1
  iptosLowdelay := 16
  iptosThroughput := 8
  iptosReliability := 4
  iptosLowcost := 2
  tcp_ne := by decide
  udp_ne := by decide

/-- A socket option by name. -/
structure StroptsS where
  /-- The name. -/
  name : List Char
  /-- The level. -/
  lvl : ℕ
  /-- The option, zero when the system does not have it. -/
  opt : ℕ

/-- A value by name. -/
structure StrvalsS where
  /-- The name. -/
  name : List Char
  /-- The value, zero when the system does not have it. -/
  val : ℕ

/-- The options known by name. -/
def optsByStr (C : SockConsts) : List StroptsS :=
  [⟨"IP_TOS".toList,C.ipprotoIp,C.ipTos⟩,
   ⟨"SO_REUSEADDR".toList,C.solSocket,C.soReuseaddr⟩,
   ⟨"SO_SNDBUF".toList,C.solSocket,C.soSndbuf⟩,
   ⟨"SO_RCVBUF".toList,C.solSocket,C.soRcvbuf⟩,
   ⟨"TCP_MAXSEG".toList,C.ipprotoTcp,C.tcpMaxseg⟩,
   ⟨"TCP_NODELAY".toList,C.ipprotoTcp,C.tcpNodelay⟩]

/-- The values known by name. -/
def valsByStr (C : SockConsts) : List StrvalsS :=
  [⟨"IPTOS_LOWDELAY".toList,C.iptosLowdelay⟩,
   ⟨"IPTOS_THROUGHPUT".toList,C.iptosThroughput⟩,
   ⟨"IPTOS_RELIABILITY".toList,C.iptosReliability⟩,
   ⟨"IPTOS_LOWCOST".toList,C.iptosLowcost⟩]

/-- `sp_getsobystr`: the option and the level of a name. -/
def spGetsobystr (C : SockConsts) (name : List Char) : Option (ℕ×ℕ) :=
  if name=[] then none
  else
    ((optsByStr C).find? fun o => o.opt≠0 && strcaseeq name o.name).map fun o => (o.opt,o.lvl)

/-- `sp_getvalbystr`: a named value, one without a name, or a number. -/
def spGetvalbystr (C : SockConsts) (name : List Char) : BitVec 32 :=
  if name=[] then 1
  else
    match (valsByStr C).find? fun v => v.val≠0 && strcaseeq name v.name with
    | some v => BitVec.ofNat 32 v.val
    | none => BitVec.ofNat 32 (getUl name).1

/-- An entry of the table of options. -/
structure NoptsS where
  /-- The option. -/
  opt : ℕ
  /-- The level. -/
  lvl : ℕ
  /-- The value. -/
  val : BitVec 32
  deriving DecidableEq

/-- A network endpoint. The used part of its table is a list, whose length is
the counter. -/
structure NetpntS where
  /-- The protocol, zero for no endpoint. -/
  dom : ℕ
  /-- The port. -/
  port : BitVec 16
  /-- The options. -/
  opts : List NoptsS
  /-- The host. -/
  host : List Char
  deriving DecidableEq

/-- `sp_addsobyint`: add an entry or, where that is asked for, replace it. A
store past the table fails. -/
def spAddsobyint (opts : List NoptsS) (opt lvl : ℕ) (val : BitVec 32) (ovr : Bool) :
    Option (List NoptsS) :=
  if opt=0 then some opts
  else
    let i := opts.findIdx fun o => o.opt==opt && o.lvl==lvl
    if i=soptCnt then some opts
    else if i=opts.length ∨ ovr=true then
      if i<soptCnt then
        some (if i=opts.length then opts++[⟨opt,lvl,val⟩] else opts.set i ⟨opt,lvl,val⟩)
      else none
    else some opts

/-- `sp_addsodefs`: the defaults of a protocol, where nothing was given. -/
def spAddsodefs (C : SockConsts) (opts : List NoptsS) (dom : ℕ) : Option (List NoptsS) :=
  (spAddsobyint opts C.soReuseaddr C.solSocket 1 false).bind fun opts1 =>
    (spAddsobyint opts1 C.ipTos C.ipprotoIp (BitVec.ofNat 32 C.iptosThroughput) false).bind
      fun opts2 =>
        if dom=C.ipprotoTcp then some opts2
        else spAddsobyint opts2 C.soSndbuf C.solSocket (18000-2*28) false

/-- Why a specification is refused, with the text that the message quotes. -/
inductive SpErr
  /-- A string is too long. -/
  | badstr (t : List Char)
  /-- An option is unknown. -/
  | badopt (t : List Char)
  /-- The port cannot be converted. -/
  | badcnv
  /-- The protocol is unknown. -/
  | baddom
  deriving DecidableEq

/-- The loop over the pieces of a value, from the character in front of a
piece on. -/
def spVals (C : SockConsts) (s : CString) (idx : Option ℕ) :
    ℕ → ℕ → BitVec 32 → Option (Except SpErr (BitVec 32))
  | 0,_,_ => none
  | n+1,idx3,val =>
    (s.strchr (idx3+1) '|').bind fun idx4 =>
      let sep := within idx idx4
      (spanLen s (idx3+1) sep idx).bind fun len2 =>
        if soptLen ≤ len2 then (s.printed (idx3+1) len2).map fun t => .error (.badstr t)
        else
          (s.memcpy (idx3+1) len2).bind fun t => (fillArray soptLen t).bind fun ostr =>
            match sep with
            | some k => spVals C s idx n k (val|||spGetvalbystr C ostr)
            | none => some (.ok (val|||spGetvalbystr C ostr))

/-- The name of an item, once its value is known. -/
def spName (C : SockConsts) (s : CString) (spec len : ℕ) (val : BitVec 32) :
    Option (Except SpErr ((ℕ×ℕ)×BitVec 32)) :=
  if soptLen ≤ len then (s.printed spec len).map fun t => .error (.badstr t)
  else
    (s.memcpy spec len).bind fun t => (fillArray soptLen t).bind fun ostr =>
      match spGetsobystr C ostr with
      | none => some (.error (.badopt (ostr.take len)))
      | some o => some (.ok (o,val))

/-- One item of the options: the option with its level, and the value. -/
def spItem (C : SockConsts) (s : CString) (fuel spec : ℕ) (idx : Option ℕ) :
    Option (Except SpErr ((ℕ×ℕ)×BitVec 32)) :=
  (s.strchr spec '=').bind fun idx2 =>
    match within idx idx2 with
    | some k =>
      (spVals C s idx fuel k 0).bind fun r =>
        match r with
        | .error e => some (.error e)
        | .ok val => spName C s spec (k-spec) val
    | none => (spanLen s spec none idx).bind fun len => spName C s spec len 1

/-- The loop over the items, from the character in front of an item on. -/
def spItems (C : SockConsts) (s : CString) (fuel : ℕ) :
    ℕ → ℕ → List NoptsS → Option (Except SpErr (List NoptsS))
  | 0,_,_ => none
  | n+1,spec,opts =>
    (s.strchr (spec+1) ',').bind fun idx =>
      (spItem C s fuel (spec+1) idx).bind fun r =>
        match r with
        | .error e => some (.error e)
        | .ok (o,val) =>
          (spAddsobyint opts o.1 o.2 val true).bind fun opts1 =>
            match idx with
            | some k =>
              if opts1.length<soptCnt then spItems C s fuel n k opts1 else some (.ok opts1)
            | none => some (.ok opts1)

/-- The host field. -/
def spHost (s : CString) (off len : ℕ) : Option (Except SpErr (List Char)) :=
  if hostLen ≤ len then (s.printed off len).map fun t => .error (.badstr t)
  else if len=0 then (fillArray hostLen ['*']).map .ok
  else (s.memcpy off len).bind fun t => (fillArray hostLen t).map .ok

/-- The port field: the number after the first separator, the default for
zero. -/
def spPort (t : List Char) : Except SpErr (BitVec 16) :=
  let r := getUl t
  if r.2≠none then .error .badcnv
  else if BitVec.ofNat 32 r.1≠0 then .ok ((BitVec.ofNat 32 r.1).setWidth 16)
  else .ok defPort

/-- The end of a parse: the defaults are added. -/
def spDone (C : SockConsts) (a : NetpntS) : Option (Except SpErr NetpntS) :=
  (spAddsodefs C a.opts a.dom).map fun opts => .ok {a with opts := opts}

/-- The options field, from behind the first separator on. -/
def spOpts (C : SockConsts) (s : CString) (fuel idx : ℕ) (a : NetpntS) :
    Option (Except SpErr NetpntS) :=
  (s.strchr idx ':').bind fun spec =>
    match spec with
    | none => spDone C a
    | some k =>
      (s.deref (k+1)).bind fun c =>
        if c=nul then spDone C a
        else
          (spItems C s fuel fuel k []).bind fun r =>
            match r with
            | .error e => some (.error e)
            | .ok opts => spDone C {a with opts := opts}

/-- The protocol that an argument asks for. -/
def spDom (C : SockConsts) (dom : ℕ) : Option ℕ :=
  if dom=specIsTcp then some C.ipprotoTcp
  else if dom=specIsUdp then some C.ipprotoUdp
  else none

/-- `sp_addr_parse` on the specification at an offset. -/
def spAddrParse (C : SockConsts) (s : CString) (fuel off dom : ℕ) :
    Option (Except SpErr NetpntS) :=
  match spDom C dom with
  | none => some (.error .baddom)
  | some proto =>
    (s.strchr off ':').bind fun idx =>
      match idx with
      | some k =>
        (s.text (k+1)).bind fun t =>
          match spPort t with
          | .error e => some (.error e)
          | .ok port =>
            (spHost s off (k-off)).bind fun r =>
              match r with
              | .error e => some (.error e)
              | .ok host => spOpts C s fuel (k+1) ⟨proto,port,[],host⟩
      | none =>
        (s.strlen off).bind fun len =>
          (spHost s off len).bind fun r =>
            match r with
            | .error e => some (.error e)
            | .ok host => spDone C ⟨proto,defPort,[],host⟩

end Yancat.Parse
