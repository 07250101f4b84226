import Yancat.BufferLaws

/-!
# Accepted configurations

The options that matter to a transfer, the ranges that option parsing admits,
and the two buffer calls of the environment setup. A configuration carries the
proof that its options are in range and that both calls succeeded; the
geometry of its initial buffer is derived here once.
-/

namespace Yancat.Setup

open Crc RingWindow WordArithmetic Buffer

/-- The options of one transfer. The resume points are those the setup
rounds to bytes, zero when unset. -/
structure OptionsS where
  /-- Requested buffer size. -/
  bsiz : ℕ
  /-- Reader's blocking unit. -/
  rblk : ℕ
  /-- Blocks to read per round in single process mode. -/
  rcnt : ℕ
  /-- Writer's blocking unit. -/
  wblk : ℕ
  /-- Blocks to write per round in single process mode. -/
  wcnt : ℕ
  /-- Read resume point in bytes. -/
  rsp : ℕ
  /-- Write resume point in bytes. -/
  wsp : ℕ
  /-- Requested huge page size. -/
  hpage : ℕ
  /-- Strict blocking writes. -/
  strict : Bool
  /-- Reader in byte/line mode. -/
  rline : Bool
  /-- Writer in byte/line mode. -/
  wline : Bool
  /-- Reader checksum. -/
  rcrc : Bool
  /-- Writer checksum. -/
  wcrc : Bool

/-- The largest block count that option parsing admits. -/
def defMaxcnt : ℕ := 1048576

/-- The largest block that option parsing admits. -/
def defMaxblk : ℕ := 4194304

/-- The largest huge page that option parsing admits. -/
def defMaxhpage : ℕ := 256*1048576

/-- The ranges that `opt_parse` enforces. -/
structure OptParse (opts : OptionsS) : Prop where
  /-- The buffer size is at most half the address range. -/
  bsiz_le : opts.bsiz≤(wordSize-1)/2
  /-- Read blocks are not empty. -/
  rblk_pos : 1≤opts.rblk
  /-- Read blocks are bounded. -/
  rblk_le : opts.rblk≤defMaxblk
  /-- Write blocks are not empty. -/
  wblk_pos : 1≤opts.wblk
  /-- Write blocks are bounded. -/
  wblk_le : opts.wblk≤defMaxblk
  /-- At least one block is read per round. -/
  rcnt_pos : 1≤opts.rcnt
  /-- The read count is bounded. -/
  rcnt_le : opts.rcnt≤defMaxcnt
  /-- At least one block is written per round. -/
  wcnt_pos : 1≤opts.wcnt
  /-- The write count is bounded. -/
  wcnt_le : opts.wcnt≤defMaxcnt
  /-- Huge pages are bounded. -/
  hpage_le : opts.hpage≤defMaxhpage
  /-- Strict mode is refused with a writer in line mode. -/
  strict_block : ¬(opts.wline=true ∧ opts.strict=true)

/-- What the system provides: the page size and the outcome of the two
allocations. -/
structure Host where
  /-- Page size. -/
  page : ℕ
  /-- The ring allocation. -/
  area : Option ShmS
  /-- The bounce allocation. -/
  scr : Option ShmS

/-- The two buffer calls of `setup_env`. -/
def setupBuf (opts : OptionsS) (host : Host) : Option BufS :=
  match bufCtor host.page host.area host.scr opts.bsiz opts.rblk opts.wblk opts.hpage with
  | none => none
  | some buf => bufSetextra buf opts.rline opts.wline opts.rcrc opts.wcrc opts.rsp opts.wsp

/-- A configuration that the program runs with. -/
structure Config where
  /-- The parsed options. -/
  opts : OptionsS
  /-- The system it runs on. -/
  host : Host
  /-- The constructed buffer. -/
  buf : BufS
  /-- The options are in the ranges of the parser. -/
  parsed : OptParse opts
  /-- Pages are a power of two. -/
  page_pow : ∃ p,host.page=2^p
  /-- The buffer has at least a page. -/
  page_le : host.page≤opts.bsiz
  /-- Both constructors accepted. -/
  accepted : setupBuf opts host=some buf

/-- Rounding up never goes below a size that leaves room for the unit. -/
theorem le_yAlign {x a : ℕ} (ha : 0<a) (h : x+a<wordSize) : x≤yAlign x a := by
  have hm := and_add_andNot (by omega : x+a-1<wordSize) (by omega : a-1<wordSize)
  have hle : (x+a-1)&&&(a-1)≤a-1 := Nat.and_le_right
  rw [yAlign,Nat.mod_eq_of_lt (by omega)]
  omega

/-- Rounding up adds less than one unit. -/
theorem yAlign_lt {x a : ℕ} (ha : 0<a) (h : x+a<wordSize) : yAlign x a<x+a := by
  have hm := and_add_andNot (by omega : x+a-1<wordSize) (by omega : a-1<wordSize)
  rw [yAlign,Nat.mod_eq_of_lt (by omega)]
  omega

/-- Pages that fit the buffer leave room for the roundings of either area. -/
theorem page_le_half {page bsiz : ℕ} (hp : ∃ p,page=2^p) (hl : page≤bsiz)
    (hb : bsiz≤(wordSize-1)/2) : 0<page ∧ page≤2^62 := by
  obtain ⟨p,rfl⟩ := hp
  have hv := wordSize_eq
  have hp63 : p<63 := (Nat.pow_lt_pow_iff_right (by omega)).mp (by omega : 2^p<2^63)
  exact ⟨Nat.two_pow_pos p,Nat.pow_le_pow_right (by omega) (by omega)⟩

/-- The two bounce chunks, each rounded up to a page, fit the allocation that
is rounded up once more, and none of the three roundings wraps. -/
theorem bounce_room {page r w : ℕ} (hp : 0<page) (h : r+w+3*page<wordSize) :
    r≤yAlign r page ∧ yAlign r page+yAlign w page+page<wordSize ∧
    yAlign r page+w≤yAlign (wordAdd (yAlign r page) (yAlign w page)) page := by
  have h1 := le_yAlign hp (by omega : r+page<wordSize)
  have h2 := le_yAlign hp (by omega : w+page<wordSize)
  have h3 := yAlign_lt hp (by omega : r+page<wordSize)
  have h4 := yAlign_lt hp (by omega : w+page<wordSize)
  have hfit : yAlign r page+yAlign w page+page<wordSize := by omega
  rw [wordAdd_of_lt (by omega)]
  have h5 := le_yAlign hp hfit
  exact ⟨h1,hfit,by omega⟩

/-- The state of the bit loop after `pos` bits: no counted bit means an empty
low part, and one counted bit means a low part that is the recorded bit. -/
structure BitsSeen (x pos cnt posr : ℕ) : Prop where
  /-- The recorded position was passed. -/
  le : posr≤pos
  /-- Nothing counted, nothing set. -/
  none : cnt=0 → x%2^pos=0
  /-- One counted bit is the whole low part. -/
  one : cnt=1 → x%2^pos=2^posr ∧ posr<pos

/-- One probe of the bit loop. -/
theorem BitsSeen.probe {x pos cnt posr : ℕ} (h : BitsSeen x pos cnt posr) :
    if 0<x&&&2^pos then BitsSeen x (pos+1) (cnt+1) pos else BitsSeen x (pos+1) cnt posr := by
  have hbit : x&&&2^pos=2^pos*(x/2^pos%2) := by
    rw [Nat.and_two_pow,Nat.toNat_testBit,Nat.mul_comm]
  have hmod : x%2^(pos+1)=x%2^pos+2^pos*(x/2^pos%2) := Nat.mod_pow_succ
  have hpos : 0<2^pos := Nat.two_pow_pos pos
  rcases Nat.mod_two_eq_zero_or_one (x/2^pos) with hb|hb
  · rw [hbit,hb,Nat.mul_zero,if_neg (by omega)]
    rw [hb,Nat.mul_zero,Nat.add_zero] at hmod
    refine ⟨h.le.trans (Nat.le_succ pos),fun hc => hmod.trans (h.none hc),fun hc => ?_⟩
    exact ⟨hmod.trans (h.one hc).1,(h.one hc).2.trans (Nat.lt_succ_self pos)⟩
  · rw [hbit,hb,Nat.mul_one,if_pos hpos]
    rw [hb,Nat.mul_one] at hmod
    refine ⟨Nat.le_succ pos,fun hc => absurd hc (Nat.succ_ne_zero cnt),fun hc => ?_⟩
    exact ⟨by rw [hmod,h.none (by omega),Nat.zero_add],Nat.lt_succ_self pos⟩

/-- The loop invariant of the bit loop reaches its last bit. -/
theorem isPow2Loop_seen (x n pos cnt posr : ℕ) (h : BitsSeen x pos cnt posr) :
    BitsSeen x (pos+n) (isPow2Loop x n pos cnt posr).1 (isPow2Loop x n pos cnt posr).2 := by
  induction n generalizing pos cnt posr with
  | zero => exact h
  | succ n ih =>
    have hp := h.probe
    have he : pos+(n+1)=pos+1+n := by omega
    rw [isPow2Loop,he]
    split
    · next hb =>
      rw [if_pos hb] at hp
      exact ih _ _ _ hp
    · next hb =>
      rw [if_neg hb] at hp
      exact ih _ _ _ hp

/-- A nonnegative answer is the exponent of the argument. -/
theorem isPow2_sound {x : ℕ} (hx : x<wordSize) (h : ¬isPow2 x<0) :
    (isPow2 x).toNat≤63 ∧ x=2^(isPow2 x).toNat := by
  have hs := isPow2Loop_seen x 64 0 0 0
    ⟨le_refl 0,fun _ => by rw [pow_zero,Nat.mod_one],fun hc => by omega⟩
  rw [Nat.zero_add] at hs
  by_cases hc : (isPow2Loop x 64 0 0 0).1=1
  · obtain ⟨hm,hl⟩ := hs.one hc
    have hv : isPow2 x=((isPow2Loop x 64 0 0 0).2 : ℤ) := if_pos hc
    rw [Nat.mod_eq_of_lt hx] at hm
    rw [hv,Int.toNat_natCast]
    exact ⟨by omega,hm⟩
  · have hv : isPow2 x=((isPow2Loop x 64 0 0 0).2 : ℤ)-2^31 := if_neg hc
    have hl := hs.le
    omega

/-- The page that an allocation is rounded to. -/
def pageInUse (page huge : ℕ) : ℕ := if page<huge then huge else page

/-- The buffer that `buf_ctor` builds, over a ring of the requested size rounded
up to the page in use, and what it has checked. -/
theorem bufCtor_built {page bsiz rblk wblk hpage : ℕ} {area scr : Option ShmS} {buf : BufS}
    (h : bufCtor page area scr bsiz rblk wblk hpage=some buf) :
    ¬isPow2 (yAlign bsiz (pageInUse page hpage))<0 ∧
    2*max rblk wblk%wordSize<yAlign bsiz (pageInUse page hpage) ∧
    ∃ shm bounce,buf=bufPlace page rblk wblk (yAlign bsiz (pageInUse page hpage))
      (yAlign (wordAdd (yAlign rblk page) (yAlign wblk page)) page) shm bounce := by
  unfold bufCtor at h
  cases area with
  | none => cases h
  | some shm =>
    simp only [shmwCtor,Option.map_some] at h
    rw [←pageInUse] at h
    generalize yAlign bsiz (pageInUse page hpage)=siz at h ⊢
    by_cases hp : isPow2 siz<0
    · rw [if_pos hp] at h
      cases h
    · by_cases hs : siz≤2*max rblk wblk%wordSize
      · rw [if_neg hp,if_pos hs] at h
        cases h
      · rw [if_neg hp,if_neg hs] at h
        cases scr with
        | none => cases h
        | some bounce =>
          simp only [Option.map_some,Nat.not_lt_zero,if_false,Option.some.injEq] at h
          exact ⟨hp,Nat.not_le.mp hs,shm,bounce,h.symm⟩

/-- What `buf_setextra` has checked when it succeeds. -/
theorem bufSetextra_some {buf out : BufS} {rline wline rcrc wcrc : Bool} {rsp wsp : ℕ}
    (h : bufSetextra buf rline wline rcrc wcrc rsp wsp=some out) :
    (rsp≠0 → buf.wblk<rsp ∧ rsp<wordSub buf.size buf.rblk) ∧
    (wsp≠0 → buf.wblk<wsp ∧ wsp<wordSub buf.size buf.rblk) ∧
    out={buf with
      rmin := if rline=true then 1 else buf.rblk
      wmin := if wline=true then 1 else buf.wblk
      rcrc := if rcrc=true then crcBeg else buf.rcrc
      dorcrc := rcrc || buf.dorcrc
      wcrc := if wcrc=true then crcBeg else buf.wcrc
      dowcrc := wcrc || buf.dowcrc
      rspInv := if rsp≠0 then wordSub buf.size rsp else buf.rspInv
      rsp := if rsp≠0 then rsp else buf.rsp
      wsp := if wsp≠0 then wsp else buf.wsp
      wstall := decide (wsp≠0) || buf.wstall} := by
  unfold bufSetextra at h
  dsimp only at h
  by_cases hr : rsp=0 <;> by_cases hw : wsp=0
  · simp only [hr,hw,ne_eq,not_true_eq_false,false_and,if_false,Option.some.injEq] at h
    subst h
    simp [hr,hw]
  · by_cases hc : wordSub buf.size buf.rblk≤wsp ∨ wsp≤buf.wblk
    · simp [hr,hw,hc] at h
    · simp [hr,hw,hc] at h
      subst h
      simp [hr,hw]
      omega
  · by_cases hc : rsp≤buf.wblk ∨ wordSub buf.size buf.rblk≤rsp
    · simp [hr,hc] at h
    · simp [hr,hw,hc] at h
      subst h
      simp [hr,hw]
      omega
  · by_cases hc : rsp≤buf.wblk ∨ wordSub buf.size buf.rblk≤rsp
    · simp [hr,hc] at h
    · by_cases hd : wordSub buf.size buf.rblk≤wsp ∨ wsp≤buf.wblk
      · simp [hr,hw,hc,hd] at h
      · simp [hr,hw,hc,hd] at h
        subst h
        simp [hr,hw]
        omega

/-- The sizes that option parsing admits on a system with pages of `page`
bytes. The huge page is zero when none is requested and need not be a power of
two. -/
structure Sizes (page bsiz rblk wblk hpage : ℕ) : Prop where
  /-- Pages are a power of two. -/
  page_pow : ∃ p,page=2^p
  /-- The buffer has at least a page. -/
  page_le : page≤bsiz
  /-- The buffer size is at most half the address range. -/
  bsiz_le : bsiz≤(wordSize-1)/2
  /-- Read blocks are not empty. -/
  rblk_pos : 1≤rblk
  /-- Read blocks are bounded. -/
  rblk_le : rblk≤defMaxblk
  /-- Write blocks are not empty. -/
  wblk_pos : 1≤wblk
  /-- Write blocks are bounded. -/
  wblk_le : wblk≤defMaxblk
  /-- Huge pages are bounded. -/
  hpage_le : hpage≤defMaxhpage

/-- The exact value of every sum fits a word, and no difference is taken of a
smaller number. -/
structure NoWrap (page bsiz rblk wblk hpage : ℕ) (buf : BufS) : Prop where
  /-- The sum in the rounding of the ring. -/
  area : bsiz+pageInUse page hpage-1<wordSize
  /-- Twice the larger block. -/
  twice : 2*max rblk wblk<wordSize
  /-- The sum in the rounding of the read bounce chunk. -/
  rchunk : rblk+page-1<wordSize
  /-- The sum in the rounding of the write bounce chunk. -/
  wchunk : wblk+page-1<wordSize
  /-- The sum of both chunks. -/
  chunks : yAlign rblk page+yAlign wblk page<wordSize
  /-- The sum in the rounding of the bounce allocation. -/
  scr : yAlign rblk page+yAlign wblk page+page-1<wordSize
  /-- The shift that makes the mask stays inside the word. -/
  shift : (isPow2 buf.size).toNat<64
  /-- The space beside a read block. -/
  room : rblk≤buf.size
  /-- The space at the read resume point. -/
  inv : buf.rsp≤buf.size

/-- The geometry of a constructed buffer. -/
structure Constructed (bsiz rblk wblk : ℕ) (buf : BufS) : Prop where
  /-- The ring is the power of two that the bit loop has found. -/
  size : ∃ k : ℕ,isPow2 buf.size=k ∧ buf.size=2^k
  /-- The ring is not smaller than requested. -/
  bsiz_le : bsiz≤buf.size
  /-- The mask selects the ring index. -/
  mask : buf.mask=buf.size-1
  /-- The read block is the requested one. -/
  rblk_eq : buf.rblk=rblk
  /-- The write block is the requested one. -/
  wblk_eq : buf.wblk=wblk
  /-- Two blocks of either side are smaller than the ring. -/
  fit : 2*max rblk wblk<buf.size
  /-- The read bounce chunk has room for a block and ends before the write bounce
  chunk. -/
  rchunk : buf.rchunk+rblk≤buf.wchunk
  /-- The write bounce chunk has room for a block and ends inside the allocation. -/
  wchunk : buf.wchunk+wblk≤buf.scrSiz
  /-- A read resume point leaves a write block below and a read block above. -/
  rsp : buf.rsp=0 ∨ (wblk<buf.rsp ∧ buf.rsp<buf.size-rblk ∧
    buf.rspInv=buf.size-buf.rsp ∧ rblk<buf.rspInv)
  /-- A write resume point leaves a write block below and a read block above. -/
  wsp : buf.wsp=0 ∨ (wblk<buf.wsp ∧ buf.wsp<buf.size-rblk)

section Sizes

variable {page bsiz rblk wblk hpage rsp wsp : ℕ} {area scr : Option ShmS} {buf out : BufS}
  {rline wline rcrc wcrc : Bool}

/-- The page in use is one of the two pages. -/
theorem Sizes.pageInUse_bounds (hs : Sizes page bsiz rblk wblk hpage) :
    0<pageInUse page hpage ∧ pageInUse page hpage≤2^62 := by
  obtain ⟨hpos,hle⟩ := page_le_half hs.page_pow hs.page_le hs.bsiz_le
  have hh := hs.hpage_le
  simp only [defMaxhpage] at hh
  unfold pageInUse
  split <;> omega

/-- The ring is not smaller than requested, whatever the bits of the huge page:
the rounding clears at most what it has added. -/
theorem Sizes.le_ring (hs : Sizes page bsiz rblk wblk hpage) :
    bsiz≤yAlign bsiz (pageInUse page hpage) := by
  obtain ⟨hpos,hle⟩ := hs.pageInUse_bounds
  have hb := hs.bsiz_le
  have hv := wordSize_eq
  exact le_yAlign hpos (by omega)

/-- Both bounce chunks and a page more fit a word. -/
theorem Sizes.chunks_lt (hs : Sizes page bsiz rblk wblk hpage) :
    0<page ∧ rblk+wblk+3*page<wordSize := by
  obtain ⟨hpos,hle⟩ := page_le_half hs.page_pow hs.page_le hs.bsiz_le
  have hr := hs.rblk_le
  have hw := hs.wblk_le
  have hv := wordSize_eq
  simp only [defMaxblk] at hr hw
  exact ⟨hpos,by omega⟩

/-- The constructed ring is a word that is the power of two of its index, and
larger than two blocks of either side. -/
theorem Sizes.ring (hs : Sizes page bsiz rblk wblk hpage) {siz : ℕ} (hsiz : siz<wordSize)
    (hpow : ¬isPow2 siz<0) (hfit : 2*max rblk wblk%wordSize<siz) :
    (isPow2 siz).toNat<64 ∧ siz=2^(isPow2 siz).toNat ∧ 2*max rblk wblk<siz := by
  obtain ⟨hk,he⟩ := isPow2_sound hsiz hpow
  have hr := hs.rblk_le
  have hw := hs.wblk_le
  have hv := wordSize_eq
  simp only [defMaxblk] at hr hw
  rw [Nat.mod_eq_of_lt (by omega)] at hfit
  exact ⟨by omega,he,hfit⟩

/-- What both constructors leave behind when they accept. -/
theorem Sizes.built (hs : Sizes page bsiz rblk wblk hpage)
    (hc : bufCtor page area scr bsiz rblk wblk hpage=some buf)
    (he : bufSetextra buf rline wline rcrc wcrc rsp wsp=some out) :
    NoWrap page bsiz rblk wblk hpage out ∧ Constructed bsiz rblk wblk out := by
  obtain ⟨hpow,hfit,shm,bounce,rfl⟩ := bufCtor_built hc
  obtain ⟨hrsp,hwsp,rfl⟩ := bufSetextra_some he
  obtain ⟨hpos,hroom⟩ := hs.chunks_lt
  obtain ⟨hrc,hsum,hwc⟩ := bounce_room hpos hroom
  obtain ⟨hup,hul⟩ := hs.pageInUse_bounds
  have hlt : yAlign bsiz (pageInUse page hpage)<wordSize :=
    Nat.and_le_left.trans_lt (Nat.mod_lt _ (Nat.two_pow_pos 64))
  have hle := hs.le_ring
  have hb := hs.bsiz_le
  have hv := wordSize_eq
  generalize yAlign bsiz (pageInUse page hpage)=siz at *
  obtain ⟨hk,hsiz,hblk⟩ := hs.ring hlt hpow hfit
  have hsub := wordSub_of_le (by omega : rblk ≤ siz) hlt
  simp only [bufPlace,hsub] at hrsp hwsp
  have hrspv : (if rsp≠0 then rsp else 0) ≤ siz := by
    split
    · next hz => exact (hrsp hz).2.le.trans (Nat.sub_le _ _)
    · exact Nat.zero_le _
  constructor
  · exact {
      area := by omega
      twice := by omega
      rchunk := by omega
      wchunk := by omega
      chunks := by omega
      scr := by omega
      shift := hk
      room := (by omega : rblk ≤ siz)
      inv := hrspv}
  · constructor <;> simp only [bufPlace]
    · exact ⟨_,(Int.toNat_of_nonneg (not_lt.mp hpow)).symm,hsiz⟩
    · exact hle
    · rw [←hsiz]
    · exact hblk
    · rwa [Nat.zero_add]
    · exact hwc
    · by_cases hz : rsp=0
      · exact .inl (if_neg (not_not.mpr hz))
      · obtain ⟨h1,h2⟩ := hrsp hz
        rw [if_pos hz,if_pos hz,wordSub_of_le (by omega) hlt]
        exact .inr ⟨h1,h2,rfl,by omega⟩
    · by_cases hz : wsp=0
      · exact .inl (if_neg (not_not.mpr hz))
      · rw [if_pos hz]
        exact .inr (hwsp hz)

end Sizes

/-- The values an accepted configuration starts from. -/
structure Fresh (opts : OptionsS) (buf : BufS) : Prop where
  /-- The read block is the requested one. -/
  rblk : buf.rblk=opts.rblk
  /-- The write block is the requested one. -/
  wblk : buf.wblk=opts.wblk
  /-- The read minimum follows the reader's mode. -/
  rmin : buf.rmin=if opts.rline=true then 1 else opts.rblk
  /-- The write minimum follows the writer's mode. -/
  wmin : buf.wmin=if opts.wline=true then 1 else opts.wblk
  /-- The read resume point is the requested one. -/
  rsp : buf.rsp=opts.rsp
  /-- The write resume point is the requested one. -/
  wsp : buf.wsp=opts.wsp
  /-- Nothing was read. -/
  got : buf.got=0
  /-- Nothing was written. -/
  did : buf.did=0
  /-- Reads are not stalled. -/
  rstall : buf.rstall=false
  /-- Writes are stalled before the run under a resume point. -/
  wstall : buf.wstall=decide (opts.wsp≠0)
  /-- The read counter is clear. -/
  allin : buf.allin=0
  /-- The write counter is clear. -/
  allout : buf.allout=0
  /-- The reader's checksum is requested by option. -/
  dorcrc : buf.dorcrc=opts.rcrc
  /-- The writer's checksum is requested by option. -/
  dowcrc : buf.dowcrc=opts.wcrc
  /-- The reader's register is initial. -/
  rcrc : buf.rcrc=crcBeg
  /-- The writer's register is initial. -/
  wcrc : buf.wcrc=crcBeg

/-- Both constructor calls of a configuration have accepted. -/
theorem Config.calls (cfg : Config) :
    ∃ buf,bufCtor cfg.host.page cfg.host.area cfg.host.scr cfg.opts.bsiz cfg.opts.rblk
        cfg.opts.wblk cfg.opts.hpage=some buf ∧
      bufSetextra buf cfg.opts.rline cfg.opts.wline cfg.opts.rcrc cfg.opts.wcrc cfg.opts.rsp
        cfg.opts.wsp=some cfg.buf := by
  have hacc := cfg.accepted
  unfold setupBuf at hacc
  split at hacc
  · cases hacc
  · next buf hctor => exact ⟨buf,hctor,hacc⟩

/-- The sizes of a configuration are those that option parsing admits. -/
theorem Config.sizes (cfg : Config) :
    Sizes cfg.host.page cfg.opts.bsiz cfg.opts.rblk cfg.opts.wblk cfg.opts.hpage where
  page_pow := cfg.page_pow
  page_le := cfg.page_le
  bsiz_le := cfg.parsed.bsiz_le
  rblk_pos := cfg.parsed.rblk_pos
  rblk_le := cfg.parsed.rblk_le
  wblk_pos := cfg.parsed.wblk_pos
  wblk_le := cfg.parsed.wblk_le
  hpage_le := cfg.parsed.hpage_le

/-- The initial values of an accepted configuration. -/
theorem Config.fresh (cfg : Config) : Fresh cfg.opts cfg.buf := by
  obtain ⟨buf,hctor,hset⟩ := cfg.calls
  obtain ⟨_,_,shm,bounce,rfl⟩ := bufCtor_built hctor
  obtain ⟨_,_,he⟩ := bufSetextra_some hset
  rw [he]
  constructor <;> simp only [bufPlace,Bool.or_false]
  · split <;> simp_all
  · split <;> simp_all
  · split <;> rfl
  · split <;> rfl

/-- Accepted configurations have the geometry that every operation keeps. -/
theorem Config.ok (cfg : Config) : BufOk cfg.buf := by
  obtain ⟨buf,hctor,hset⟩ := cfg.calls
  obtain ⟨hn,hc⟩ := cfg.sizes.built hctor hset
  have hf := cfg.fresh
  have hrp := cfg.parsed.rblk_pos
  have hwp := cfg.parsed.wblk_pos
  have hfit := hc.fit
  have hm1 := Nat.le_max_left cfg.opts.rblk cfg.opts.wblk
  have hm2 := Nat.le_max_right cfg.opts.rblk cfg.opts.wblk
  obtain ⟨k,hk,hs⟩ := hc.size
  have hshift := hn.shift
  rw [hk,Int.toNat_natCast] at hshift
  constructor
  · exact ⟨k,by omega,hs⟩
  · exact hc.mask
  · rw [hf.rblk]
    omega
  · rw [hf.wblk]
    omega
  · rw [hf.rblk]
    omega
  · rw [hf.wblk]
    omega
  · rw [hf.rmin]
    split <;> omega
  · rw [hf.rmin,hf.rblk]
    split <;> omega
  · rw [hf.wmin]
    split <;> omega
  · rw [hf.wmin,hf.wblk]
    split <;> omega
  · intro hz
    have hr := hc.rsp.resolve_left hz
    rw [hf.rblk,hf.wblk]
    omega
  · intro hz
    have hw := hc.wsp.resolve_left hz
    rw [hf.rblk,hf.wblk]
    omega
  · rw [hf.rstall]
    nofun
  · rw [hf.wstall,hf.wsp]
    exact of_decide_eq_true
  · rw [hf.rblk]
    exact hc.rchunk
  · rw [hf.wblk]
    exact hc.wchunk
  · rw [hf.got]
    omega
  · rw [hf.did]
    omega

/-- A configuration without the line option, or with read blocks of one byte, has
a block-mode reader. -/
theorem Config.blockReader (cfg : Config) (h : cfg.opts.rline=false ∨ cfg.opts.rblk=1) :
    BlockReader cfg.buf := by
  rw [BlockReader,cfg.fresh.rmin,cfg.fresh.rblk]
  rcases h with h|h
  · rw [h]
    rfl
  · rw [h]
    exact ite_self 1

/-- A configuration without the line option has a block-mode writer. -/
theorem Config.blockWriter (cfg : Config) (h : cfg.opts.wline=false) : BlockWriter cfg.buf := by
  rw [BlockWriter,cfg.fresh.wmin,cfg.fresh.wblk,h]
  rfl

/-- The initial buffer is empty. -/
theorem Config.fill_zero (cfg : Config) : fill cfg.buf=0 := by
  rw [cfg.ok.fill_eq,cfg.fresh.got,cfg.fresh.did,ringDist_self cfg.ok.size_pos]

/-- Options of the smallest accepted transfer over pages of four kilobytes,
with blocks of `blk` bytes. -/
def smallOpts (blk : ℕ) (rline strict : Bool) : OptionsS where
  bsiz := 4096
  rblk := blk
  rcnt := 1
  wblk := blk
  wcnt := 1
  rsp := 0
  wsp := 0
  hpage := 0
  strict := strict
  rline := rline
  wline := false
  rcrc := true
  wcrc := true

/-- A system that grants both allocations, cleared and without a second
mapping. -/
def smallHost : Host where
  page := 4096
  area := some ⟨fun _ => 0,false⟩
  scr := some ⟨fun _ => 0,false⟩

/-- The buffer of the smallest transfer. -/
def smallBuf (blk : ℕ) (rline strict : Bool) : BufS :=
  (setupBuf (smallOpts blk rline strict) smallHost).getD
    (bufPlace 4096 blk blk 4096 0 ⟨fun _ => 0,false⟩ ⟨fun _ => 0,false⟩)

/-- The smallest transfer with blocks of two bytes. -/
def small (rline strict : Bool) : Config where
  opts := smallOpts 2 rline strict
  host := smallHost
  buf := smallBuf 2 rline strict
  parsed := by constructor <;> cases rline <;> cases strict <;> decide
  page_pow := ⟨12,rfl⟩
  page_le := le_refl 4096
  accepted := by cases rline <;> cases strict <;> rfl

end Yancat.Setup
