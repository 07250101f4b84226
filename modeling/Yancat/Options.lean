import Yancat.Parse
import Yancat.Setup

/-!
# Options

The endpoint that a specification asks for, and the loop over the options of a
command line, in the order in which the C library hands them out. A pointer into
an argument is kept as the text that it points to; forming one past the
terminator fails.
-/

namespace Yancat.Options

open Strings Common Parse WordArithmetic
open Setup (defMaxcnt defMaxblk defMaxhpage)

/-- How the transfer is run. -/
inductive ModeT
  /-- Two processes. -/
  | mp
  /-- Two threads. -/
  | mt
  /-- One process. -/
  | sp
  deriving DecidableEq

/-- The two sides of a transfer, numbered from zero in the source. -/
inductive Dir
  /-- The input. -/
  | inp
  /-- The output. -/
  | out
  deriving DecidableEq

/-- `struct options_s`. -/
structure OptionsS (δ : Type) where
  /-- Descriptor of each side. -/
  fd : Dir → Option (List Char)
  /-- File of each side. -/
  file : Dir → Option (List Char)
  /-- Network endpoint of each side. -/
  sock : Dir → NetpntS
  /-- Buffer size. -/
  bsiz : ℕ
  /-- Reader's blocking unit. -/
  rblk : ℕ
  /-- Blocks to read per round. -/
  rcnt : ℕ
  /-- Writer's blocking unit. -/
  wblk : ℕ
  /-- Blocks to write per round. -/
  wcnt : ℕ
  /-- Read resume point. -/
  rsp : δ
  /-- Write resume point. -/
  wsp : δ
  /-- Huge page size. -/
  hpage : ℕ
  /-- Synchronise the output. -/
  fsync : Bool
  /-- Strict blocking writes. -/
  strict : Bool
  /-- Reader in byte/line mode. -/
  rline : Bool
  /-- Writer in byte/line mode. -/
  wline : Bool
  /-- Reader checksum. -/
  rcrc : Bool
  /-- Writer checksum. -/
  wcrc : Bool
  /-- Looping until an error. -/
  loop : Bool
  /-- Processor of the reader. -/
  cpuR : ℤ
  /-- Processor of the writer. -/
  cpuW : ℤ
  /-- How the transfer is run. -/
  mode : ModeT

/-- What a build and its libraries decide. -/
structure Env (δ : Type) where
  /-- The system headers. -/
  consts : SockConsts
  /-- Floating point numbers. -/
  floats : Floats δ
  /-- The page size. -/
  page : ℕ
  /-- Built with processor affinity. -/
  affi : Bool
  /-- Built with threads. -/
  thr : Bool

/-- A build on Linux, for command lines without resume points. -/
def linuxEnv : Env Unit where
  consts := linux
  floats := ⟨(),fun _ => ((),[],false),fun _ => false,fun _ => false⟩
  page := 4096
  affi := true
  thr := true

/-- The number of processors that a set can hold. -/
def cpuSetsize : ℤ := 1024

/-- The endpoint that a specification asks for. -/
inductive Endpoint
  /-- A descriptor, as text. -/
  | fd (t : List Char)
  /-- A file. -/
  | file (path : List Char)
  /-- A network endpoint. -/
  | sock (np : NetpntS)
  deriving DecidableEq

variable {δ : Type}

/-- Nothing is asked for on a side any more. -/
def unset (dir : Dir) (opts : OptionsS δ) : OptionsS δ :=
  {opts with
    fd := Function.update opts.fd dir none
    file := Function.update opts.file dir none
    sock := Function.update opts.sock dir {opts.sock dir with dom := 0}}

/-- `unset_in`. -/
def unsetIn (opts : OptionsS δ) : OptionsS δ := unset .inp opts

/-- `unset_out`. -/
def unsetOut (opts : OptionsS δ) : OptionsS δ := unset .out opts

/-- `set_default`. -/
def setDefault (E : Env δ) : OptionsS δ where
  fd _ := none
  file _ := none
  sock _ := ⟨0,0,[],[]⟩
  bsiz := 4194304
  rblk := 65536
  rcnt := 1
  wblk := 65536
  wcnt := 1
  rsp := E.floats.zero
  wsp := E.floats.zero
  hpage := 0
  fsync := false
  strict := false
  rline := false
  wline := false
  rcrc := false
  wcrc := false
  loop := false
  cpuR := -1
  cpuW := -1
  mode := .mp

/-- The field of a side that an endpoint is stored in. -/
def OptionsS.record (opts : OptionsS δ) (dir : Dir) : Endpoint → OptionsS δ
  | .fd t => {opts with fd := Function.update opts.fd dir (some t)}
  | .file path => {opts with file := Function.update opts.file dir (some path)}
  | .sock np => {opts with sock := Function.update opts.sock dir np}

/-- The descriptor that a dash stands for. -/
def dash : Dir → List Char
  | .inp => ['0']
  | .out => ['1']

/-- The branches of `opt_subparse`. -/
def optSubspec (C : SockConsts) (spec : CString) (dir : Dir) :
    Option (Except SpErr Endpoint) :=
  let len2 := if 2<spec.size then 2 else spec.size
  if strncaseeq spec.chars "t:".toList len2=true then
    (spAddrParse C spec (spec.size+1) 2 specIsTcp).map (Except.map .sock)
  else if strncaseeq spec.chars "u:".toList len2=true then
    (spAddrParse C spec (spec.size+1) 2 specIsUdp).map (Except.map .sock)
  else
    (spec.deref 0).bind fun c =>
      if c= ':' ∨ strncaseeq spec.chars "d:".toList len2=true then
        (spec.deref 1).bind fun c1 =>
          (spec.text (if c1= ':' then 2 else 1)).map fun t => .ok (.fd t)
      else if strcaseeq spec.chars "-".toList=true then some (.ok (.fd (dash dir)))
      else
        (spec.text (if strncaseeq spec.chars "f:".toList len2=true then 2 else 0)).map
          fun t => .ok (.file t)

/-- `opt_subparse`. What a refused specification leaves behind is not kept. -/
def optSubparse (C : SockConsts) (opts : OptionsS δ) (spec : CString) (dir : Dir) :
    Option (Except SpErr (OptionsS δ)) :=
  (optSubspec C spec dir).map (Except.map (opts.record dir))

/-- Why a command line is refused. -/
inductive OptErr
  /-- The value of an option is invalid. -/
  | inv (opt : Char)
  /-- The input specification is bad. -/
  | badin (e : SpErr)
  /-- The output specification is bad. -/
  | badout (e : SpErr)
  /-- An option is unknown. -/
  | unknown (opt : Char)
  /-- Help was asked for. -/
  | help
  /-- Strict mode with a writer in line mode. -/
  | strictLine
  deriving DecidableEq

/-- An option as `getopt` hands it out. -/
inductive Opt
  /-- An option with its argument. -/
  | arg (opt : Char) (optarg : CString)
  /-- An option without one. -/
  | flag (opt : Char)

/-- The value of a size option: a number from `lo` to `hi`. -/
def optSize (opt : Char) (lo hi : ℕ) (optarg : CString) : Except OptErr ℕ :=
  let r := getUl optarg.chars
  if r.2≠none ∨ r.1<lo ∨ hi<r.1 then .error (.inv opt) else .ok r.1

/-- The value of a resume point option: a number between zero and one. -/
def optPoint (F : Floats δ) (opt : Char) (optarg : CString) : Except OptErr δ :=
  let r := getDouble F optarg.chars
  if r.2≠none ∨ F.leZero r.1=true ∨ F.geOne r.1=true then .error (.inv opt) else .ok r.1

/-- The value of a processor option. -/
def optCpu (opt : Char) (optarg : CString) : Except OptErr ℤ :=
  let r := getUl optarg.chars
  let cpu := (BitVec.ofNat 32 r.1).toInt
  if r.2≠none ∨ cpuSetsize ≤ cpu then .error (.inv opt) else .ok cpu

/-- An option with an argument. -/
def optArg (E : Env δ) (opts : OptionsS δ) (opt : Char) (optarg : CString) :
    Option (Except OptErr (OptionsS δ)) :=
  match opt with
  | 'n' => some ((optSize 'n' 1 defMaxcnt optarg).map fun v => {opts with rcnt := v})
  | 'N' => some ((optSize 'N' 1 defMaxcnt optarg).map fun v => {opts with wcnt := v})
  | 'i' => (optSubparse E.consts (unsetIn opts) optarg .inp).map (Except.mapError .badin)
  | 'o' => (optSubparse E.consts (unsetOut opts) optarg .out).map (Except.mapError .badout)
  | 'b' => some ((optSize 'b' 1 defMaxblk optarg).map fun v => {opts with rblk := v})
  | 'B' => some ((optSize 'B' 1 defMaxblk optarg).map fun v => {opts with wblk := v})
  | 'm' => some ((optSize 'm' E.page ((wordSize-1)/2) optarg).map fun v => {opts with bsiz := v})
  | 'H' => some ((optSize 'H' E.page defMaxhpage optarg).map fun v => {opts with hpage := v})
  | 'p' => some ((optPoint E.floats 'p' optarg).map fun v => {opts with rsp := v})
  | 'P' => some ((optPoint E.floats 'P' optarg).map fun v => {opts with wsp := v})
  | 'u' =>
    if E.affi=true then some ((optCpu 'u' optarg).map fun v => {opts with cpuR := v})
    else some (.error (.unknown 'u'))
  | 'U' =>
    if E.affi=true then some ((optCpu 'U' optarg).map fun v => {opts with cpuW := v})
    else some (.error (.unknown 'U'))
  | c => some (.error (.unknown c))

/-- An option without an argument. -/
def optFlag (E : Env δ) (opts : OptionsS δ) (opt : Char) : Except OptErr (OptionsS δ) :=
  match opt with
  | 'g' => .ok {opts with loop := true}
  | 't' => if E.thr=true then .ok {opts with mode := .mt} else .error (.unknown 't')
  | '1' => .ok {opts with mode := .sp}
  | 'y' => .ok {opts with fsync := true}
  | 'r' => .ok {opts with strict := true}
  | 'l' => .ok {opts with rline := true}
  | 'L' => .ok {opts with wline := true}
  | 'c' => .ok {opts with rcrc := true}
  | 'C' => .ok {opts with wcrc := true}
  | 'h' => .error .help
  | c => .error (.unknown c)

/-- One round of the loop of `opt_parse`. -/
def optStep (E : Env δ) (opts : OptionsS δ) : Opt → Option (Except OptErr (OptionsS δ))
  | .arg opt optarg => optArg E opts opt optarg
  | .flag opt => some (optFlag E opts opt)

/-- The loop of `opt_parse`. -/
def optLoop (E : Env δ) : OptionsS δ → List Opt → Option (Except OptErr (OptionsS δ))
  | opts,[] => some (.ok opts)
  | opts,a::args =>
    (optStep E opts a).bind fun r =>
      match r with
      | .error e => some (.error e)
      | .ok opts1 => optLoop E opts1 args

/-- `opt_parse`. -/
def optParse (E : Env δ) (args : List Opt) : Option (Except OptErr (OptionsS δ)) :=
  (optLoop E (setDefault E) args).map fun r =>
    match r with
    | .error e => .error e
    | .ok opts => if opts.wline=true ∧ opts.strict=true then .error .strictLine else .ok opts

end Yancat.Options
