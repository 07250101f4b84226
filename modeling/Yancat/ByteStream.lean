import Yancat.Shared

/-!
# The stream through the buffer

One invariant ties the ring, the fetched areas, the counters and the checksum
registers to what was read and what was written. It is indexed by the position
of either side in its current transfer, so that both drivers use it: each
buffer operation moves one side from one position to the next, and the other
side's part is carried by a frame law. Padding may exist only when the reading
side is closed and nothing is left.
-/

namespace Yancat.ByteStream

open Crc RingWindow WordArithmetic Buffer Setup Shared

/-- The stream as seen from outside the buffer. -/
structure Flow where
  /-- Bytes published by the reading side, in order. -/
  sent : List Byte
  /-- Bytes read and not yet published. -/
  pending : List Byte
  /-- Bytes accepted by the output, in order. -/
  out : List Byte
  /-- Number of published bytes released by the writing side. -/
  cout : ℕ

/-- The stream that a record of moved bytes stands for. -/
def flow (t : Trace) : Flow where
  sent := t.inp.take t.cin
  pending := t.inp.drop t.cin
  out := t.out
  cout := t.cout

/-- Published and pending bytes are the bytes read. -/
theorem flow_all (t : Trace) : (flow t).sent++(flow t).pending=t.inp := List.take_append_drop _ _

/-- The number of published bytes. -/
theorem flow_sent_length (t : Trace) (hle : t.cin≤t.inp.length) :
    (flow t).sent.length=t.cin := by
  change (t.inp.take t.cin).length=t.cin
  rw [List.length_take,Nat.min_eq_left hle]

/-- Bytes read when none were pending are pending. -/
theorem flow_read (t : Trace) (bs : List Byte) (hle : t.cin≤t.inp.length)
    (hp : (flow t).pending=[]) :
    flow {t with inp := t.inp++bs}={flow t with pending := bs} := by
  have hd : t.inp.drop t.cin=[] := hp
  unfold flow
  dsimp only
  rw [List.take_append_of_le_length hle,List.drop_append_of_le_length hle,hd,List.nil_append]

/-- Publishing all pending bytes sends them. -/
theorem flow_publish (t : Trace) {n : ℕ} (hle : t.cin≤t.inp.length)
    (hn : (flow t).pending.length=n) :
    t.cin+n≤t.inp.length ∧ flow {t with cin := t.cin+n}=
      {flow t with sent := (flow t).sent++(flow t).pending,pending := []} := by
  have hl : (t.inp.drop t.cin).length=n := hn
  rw [List.length_drop] at hl
  refine ⟨by omega,?_⟩
  unfold flow
  dsimp only
  rw [List.take_append_drop,List.drop_eq_nil_of_le (by omega : t.inp.length≤t.cin+n),
    List.take_of_length_le (by omega)]

/-- Position of the reading side in one transfer. -/
inductive RPhase
  /-- Between transfers. -/
  | idle
  /-- Holding a grant. -/
  | granted (siz : ℕ)
  /-- Holding the area of a grant. -/
  | fetched (p : Ptr) (siz : ℕ)
  /-- The area holds bytes. -/
  | got (n : ℕ)
  /-- The bytes are in the ring. -/
  | stored (n : ℕ)
  /-- No further transfer follows. -/
  | closed

/-- Position of the writing side in one transfer. -/
inductive WPhase
  /-- Between transfers. -/
  | idle
  /-- Holding a grant. -/
  | granted (siz : ℕ)
  /-- Holding a grant made after the reading side closed. -/
  | final (siz : ℕ)
  /-- Holding an area of stream bytes and padding. -/
  | fetched (p : Ptr) (siz pad : ℕ)
  /-- Stream bytes and padding were accepted. -/
  | wrote (k z : ℕ)
  /-- The accepted bytes were counted. -/
  | counted (k z : ℕ)

/-- The bytes from the read index on that the reading side may be filling. -/
def RPhase.extent : RPhase → ℕ
  | .granted siz => siz
  | .fetched _ siz => siz
  | .got n => n
  | .stored n => n
  | _ => 0

/-- The bytes from the write index on that the writing side may be writing
out. -/
def WPhase.extent : WPhase → ℕ
  | .granted siz => siz
  | .final siz => siz
  | .fetched _ siz _ => siz
  | .wrote k _ => k
  | .counted k _ => k
  | _ => 0

/-- What padding presupposes: it follows the last byte of a closed stream. -/
structure Padding (opts : OptionsS) (buf : BufS) (rp : RPhase) (k z : ℕ) : Prop where
  /-- The reading side is closed. -/
  closed : rp=.closed
  /-- The stream bytes beside the padding are the last ones. -/
  last : k=fill buf
  /-- There is less than a block of it. -/
  short : z<opts.wblk
  /-- Strict mode asked for it. -/
  strict : opts.strict=true

/-- The area behind the write pointer offers stream bytes and padding. -/
structure Offered (opts : OptionsS) (buf : BufS) (rest : List Byte) (rp : RPhase) (k z : ℕ) :
    Prop where
  /-- The stream bytes are published. -/
  le : k≤fill buf
  /-- The area is at most a block. -/
  block : k+z≤opts.wblk
  /-- The content of the area. -/
  bytes : loadAt buf (writePtr buf) (k+z)=rest.take k++List.replicate z 0
  /-- An area in the ring is covered and never padded. -/
  span : buf.fastw=true → Spans buf buf.did k ∧ z=0
  /-- Padding is last. -/
  pad : 0<z → Padding opts buf rp k z

/-- The reading side's part of the invariant. -/
def ReaderAt (buf : BufS) (pending : List Byte) : RPhase → Prop
  | .idle => pending=[]
  | .closed => pending=[]
  | .granted siz => pending=[] ∧ GrantR buf siz
  | .fetched p siz =>
    pending=[] ∧ GrantR buf siz ∧ p=readPtr buf ∧ (buf.fastr=true → Spans buf buf.got siz)
  | .got n =>
    pending.length=n ∧ GrantR buf n ∧ (buf.fastr=true → Spans buf buf.got n) ∧
      loadAt buf (readPtr buf) n=pending
  | .stored n => pending.length=n ∧ GrantR buf n ∧ window buf.size buf.got n buf.ptr=pending

/-- The writing side's part of the invariant. -/
def WriterAt (opts : OptionsS) (buf : BufS) (f : Flow) (rp : RPhase) : WPhase → Prop
  | .idle => ∃ z,f.out=f.sent.take f.cout++List.replicate z 0 ∧ (0<z → Padding opts buf rp 0 z)
  | .granted siz => f.out=f.sent.take f.cout ∧ GrantW buf siz
  | .final siz =>
    f.out=f.sent.take f.cout ∧ GrantW buf siz ∧ rp=.closed ∧ (siz=buf.wblk ∨ siz=fill buf)
  | .fetched p siz pad => f.out=f.sent.take f.cout ∧ p=writePtr buf ∧
    Offered opts buf (f.sent.drop f.cout) rp siz pad
  | .wrote k z =>
    f.out=f.sent.take f.cout++((f.sent.drop f.cout).take k++List.replicate z 0) ∧
      Offered opts buf (f.sent.drop f.cout) rp k z
  | .counted k z =>
    f.out=f.sent.take f.cout++((f.sent.drop f.cout).take k++List.replicate z 0) ∧
      k≤fill buf ∧ (0<z → Padding opts buf rp k z)

/-- The bytes that the reading side has counted. -/
def readCounted (f : Flow) : RPhase → List Byte
  | .got _ => f.sent
  | _ => f.sent++f.pending

/-- The bytes that the writing side has counted. -/
def writeCounted (f : Flow) : WPhase → List Byte
  | .wrote _ _ => f.sent.take f.cout
  | _ => f.out

/-- The reader's counter and register describe a byte sequence. -/
def ReadSum (buf : BufS) (bytes : List Byte) : Prop :=
  buf.allin=BitVec.ofNat 64 bytes.length ∧ (buf.dorcrc=true → buf.rcrc=crcCalc crcBeg bytes)

/-- The writer's counter and register describe a byte sequence. -/
def WriteSum (buf : BufS) (bytes : List Byte) : Prop :=
  buf.allout=BitVec.ofNat 64 bytes.length ∧ (buf.dowcrc=true → buf.wcrc=crcCalc crcBeg bytes)

/-- The stream invariant. -/
structure StreamInv (opts : OptionsS) (buf : BufS) (f : Flow) (rp : RPhase) (wp : WPhase) :
    Prop where
  /-- The geometry. -/
  ok : BufOk buf
  /-- The reader is in block mode if that was requested. -/
  block : opts.rline=false ∨ opts.rblk=1 → BlockReader buf
  /-- The write block is the requested one. -/
  wblk : buf.wblk=opts.wblk
  /-- The reader's checksum is taken as requested. -/
  dorcrc : buf.dorcrc=opts.rcrc
  /-- The writer's checksum is taken as requested. -/
  dowcrc : buf.dowcrc=opts.wcrc
  /-- The fill is what was published and not released. -/
  count : f.sent.length=f.cout+fill buf
  /-- The unread part of the ring. -/
  ring : window buf.size buf.did (fill buf) buf.ptr=f.sent.drop f.cout
  /-- The reading side. -/
  reader : ReaderAt buf f.pending rp
  /-- The writing side. -/
  writer : WriterAt opts buf f rp wp
  /-- The reader's counter and register. -/
  rsum : ReadSum buf (readCounted f rp)
  /-- The writer's counter and register. -/
  wsum : WriteSum buf (writeCounted f wp)

variable {opts : OptionsS} {buf : BufS} {f : Flow} {rp rp' : RPhase} {wp wp' : WPhase}

/-! ## Frame laws -/

/-- The buffer after a change to what the reading side owns or to a stall
flag. -/
def readSide (buf : BufS) (ptr scr : ℕ → Byte) (fastr rstall wstall : Bool)
    (allin : BitVec 64) (rcrc : CrcInt) : BufS :=
  {buf with
    ptr := ptr
    scr := scr
    fastr := fastr
    rstall := rstall
    wstall := wstall
    allin := allin
    rcrc := rcrc}

/-- The buffer after a change to what the writing side owns. -/
def writeSide (buf : BufS) (scr : ℕ → Byte) (fastw : Bool) (allout : BitVec 64)
    (wcrc : CrcInt) : BufS :=
  {buf with scr := scr,fastw := fastw,allout := allout,wcrc := wcrc}

/-- Memory contents that spare the unread window and the write chunk. -/
structure Spares (buf : BufS) (ptr scr : ℕ → Byte) : Prop where
  /-- The unread window is kept. -/
  ring : ∀ j<fill buf,ptr (ringCell buf.size buf.did j)=buf.ptr (ringCell buf.size buf.did j)
  /-- The bounce allocation is kept from the write chunk on. -/
  chunk : ∀ a,buf.wchunk≤a → scr a=buf.scr a

/-- Unchanged memory spares everything. -/
theorem Spares.refl : Spares buf buf.ptr buf.scr := ⟨fun _ _ => rfl,fun _ _ => rfl⟩

/-- A load of offered bytes visits spared memory only. -/
theorem Offered.spared {rest : List Byte} {k z : ℕ} (h : Offered opts buf rest rp k z)
    {ptr scr : ℕ → Byte} (hs : Spares buf ptr scr) (fastr rstall wstall : Bool)
    (allin : BitVec 64) (rcrc : CrcInt) :
    loadAt (readSide buf ptr scr fastr rstall wstall allin rcrc) (writePtr buf) (k+z)=
      loadAt buf (writePtr buf) (k+z) := by
  by_cases hf : buf.fastw=true
  · obtain ⟨hsp,hz⟩ := h.span hf
    have hsp' : Spans (readSide buf ptr scr fastr rstall wstall allin rcrc) buf.did k := hsp
    subst hz
    rw [writePtr,if_pos hf,Nat.add_zero,loadAt_ring hsp,loadAt_ring hsp']
    exact load_congr fun i hi => hs.ring i (hi.trans_le h.le)
  · rw [writePtr,if_neg hf]
    exact load_congr fun i _ => hs.chunk _ (Nat.le_add_right _ _)

/-- The offer survives the reading side's changes. -/
theorem Offered.readSide {rest : List Byte} {k z : ℕ} (h : Offered opts buf rest rp k z)
    {ptr scr : ℕ → Byte} (hs : Spares buf ptr scr) (fastr rstall wstall : Bool)
    (allin : BitVec 64) (rcrc : CrcInt) :
    Offered opts (readSide buf ptr scr fastr rstall wstall allin rcrc) rest rp k z where
  le := h.le
  block := h.block
  bytes := (h.spared hs fastr rstall wstall allin rcrc).trans h.bytes
  span := h.span
  pad := fun hz => {h.pad hz with}

/-- The writing side's part survives the reading side's changes. -/
theorem WriterAt.readSide (h : WriterAt opts buf f rp wp) {ptr scr : ℕ → Byte}
    (hs : Spares buf ptr scr) (fastr rstall wstall : Bool)
    (allin : BitVec 64) (rcrc : CrcInt) :
    WriterAt opts (readSide buf ptr scr fastr rstall wstall allin rcrc) f rp wp := by
  cases wp with
  | idle =>
    obtain ⟨z,ho,hz⟩ := h
    exact ⟨z,ho,fun hp => {hz hp with}⟩
  | granted siz => exact h
  | final siz => exact h
  | fetched p siz pad => exact ⟨h.1,h.2.1,h.2.2.readSide hs fastr rstall wstall allin rcrc⟩
  | wrote k z => exact ⟨h.1,h.2.readSide hs fastr rstall wstall allin rcrc⟩
  | counted k z => exact ⟨h.1,h.2.1,fun hp => {h.2.2 hp with}⟩

/-- The reading side's position matters to padding only once it closes. -/
theorem WriterAt.rphase (h : WriterAt opts buf f rp wp) (hc : rp=.closed → rp'=.closed) :
    WriterAt opts buf f rp' wp := by
  have hpad : ∀ k z,Padding opts buf rp k z → Padding opts buf rp' k z :=
    fun k z hp => {hp with closed := hc hp.closed}
  have hoff : ∀ rest k z,Offered opts buf rest rp k z → Offered opts buf rest rp' k z :=
    fun _ k z ho => {ho with pad := fun hz => hpad k z (ho.pad hz)}
  cases wp with
  | idle =>
    obtain ⟨z,ho,hz⟩ := h
    exact ⟨z,ho,fun hp => hpad 0 z (hz hp)⟩
  | granted siz => exact h
  | final siz => exact ⟨h.1,h.2.1,hc h.2.2.1,h.2.2.2⟩
  | fetched p siz pad => exact ⟨h.1,h.2.1,hoff _ siz pad h.2.2⟩
  | wrote k z => exact ⟨h.1,hoff _ k z h.2⟩
  | counted k z => exact ⟨h.1,h.2.1,fun hp => hpad k z (h.2.2 hp)⟩

/-- The fetched read area is below the write chunk or in the ring. -/
theorem BufOk.readArea (h : BufOk buf) {n : ℕ} (hn : n≤buf.rblk) {scr : ℕ → Byte}
    (hs : ∀ a<buf.wchunk,scr a=buf.scr a) (fastw : Bool) (allout : BitVec 64) (wcrc : CrcInt) :
    loadAt (writeSide buf scr fastw allout wcrc) (readPtr buf) n=
      loadAt buf (readPtr buf) n := by
  have hr := h.rchunkOk
  unfold readPtr
  split
  · rfl
  · apply load_congr
    intro i hi
    exact hs _ (by change buf.rchunk+i<buf.wchunk; omega)

/-- The reading side's part survives the writing side's changes. -/
theorem ReaderAt.writeSide {pending : List Byte} (h : ReaderAt buf pending rp) (hok : BufOk buf)
    {scr : ℕ → Byte} (hs : ∀ a<buf.wchunk,scr a=buf.scr a) (fastw : Bool) (allout : BitVec 64)
    (wcrc : CrcInt) : ReaderAt (writeSide buf scr fastw allout wcrc) pending rp := by
  cases rp with
  | got n =>
    obtain ⟨hl,hg,hsp,hb⟩ := h
    exact ⟨hl,hg,hsp,(BufOk.readArea hok hg.2.1 hs fastw allout wcrc).trans hb⟩
  | _ => exact h

/-! ## The reading side -/

/-- A read decision changes no part of the stream. -/
theorem StreamInv.canR (h : StreamInv opts buf f rp wp) :
    StreamInv opts (bufCanR buf).2 f rp wp := by
  obtain ⟨st,hs⟩ := bufCanR_snd buf
  have hok := h.ok.canR
  have hw := h.writer.readSide .refl buf.fastr st buf.wstall buf.allin buf.rcrc
  rw [hs] at hok ⊢
  exact {h with
    ok := hok
    writer := hw}

/-- The grant of a read decision is one that the reader may hold, unless it
would fill the ring. -/
theorem StreamInv.grantR (h : StreamInv opts buf f .idle wp) (hn : ¬Filling buf)
    (hz : (bufCanR buf).1≠0) :
    StreamInv opts (bufCanR buf).2 f (.granted (bufCanR buf).1) wp := by
  have hg := h.ok.grantR hn hz
  have hc := h.canR
  obtain ⟨st,hs⟩ := bufCanR_snd buf
  rw [hs] at hc ⊢
  exact {hc with
    reader := ⟨h.reader,hg⟩
    writer := hc.writer.rphase (fun he => by cases he)}

/-- A held read grant may be given up. -/
theorem StreamInv.dropR {siz : ℕ} (h : StreamInv opts buf f (.granted siz) wp) :
    StreamInv opts buf f .idle wp :=
  {h with
    reader := h.reader.1
    writer := h.writer.rphase (fun he => by cases he)}

/-- So may a fetched area. -/
theorem StreamInv.abandonR {p : Ptr} {siz : ℕ} (h : StreamInv opts buf f (.fetched p siz) wp) :
    StreamInv opts buf f .idle wp :=
  {h with
    reader := h.reader.1
    writer := h.writer.rphase (fun he => by cases he)}

/-- Between transfers the reading side may close. -/
theorem StreamInv.close (h : StreamInv opts buf f .idle wp) : StreamInv opts buf f .closed wp :=
  {h with
    reader := h.reader
    writer := h.writer.rphase (fun _ => rfl)}

/-- Fetching a grant hands out its area. -/
theorem StreamInv.fetchR {siz : ℕ} (h : StreamInv opts buf f (.granted siz) wp) :
    StreamInv opts (bufFetchR buf siz).2 f (.fetched (bufFetchR buf siz).1 siz) wp := by
  obtain ⟨hp,hg⟩ := h.reader
  have hfit := h.ok.rfit
  have hle := hg.2.1
  obtain ⟨fast,he,hsp⟩ := h.ok.ring.bufFetchR_eq (by omega : siz≤buf.size)
  rw [he]
  have hw := (h.writer.readSide .refl fast buf.rstall buf.wstall buf.allin buf.rcrc :
    WriterAt opts {buf with fastr := fast} f _ wp)
  exact {h with
    ok := {h.ok with}
    reader := ⟨hp,hg,rfl,hsp⟩
    writer := hw.rphase (fun he => by cases he)}

/-- Storing into a fetched area is a store to the memory behind the read
pointer, and spares the unread window and the write chunk. -/
theorem StreamInv.storeR {p : Ptr} {siz i : ℕ} {bs : List Byte}
    (h : StreamInv opts buf f (.fetched p siz) wp) (hi : i+bs.length ≤ siz) :
    ∃ ptr scr,Spares buf ptr scr ∧
      storeAt buf ⟨p.area,p.off+i⟩ bs=
        readSide buf ptr scr buf.fastr buf.rstall buf.wstall buf.allin buf.rcrc := by
  obtain ⟨_,hg,rfl,hsp⟩ := h.reader
  have hlt := hg.2.2
  have hle := hg.2.1
  have hrc := h.ok.rchunkOk
  have hgot := h.ok.got_eq
  unfold readPtr
  split
  · next hf =>
    refine ⟨store (ringAddr buf (buf.got+i)) bs buf.ptr,buf.scr,⟨fun j hj => ?_,fun _ _ => rfl⟩,rfl⟩
    apply store_other
    intro k hk
    have hcell : ringAddr buf (buf.got+i) k=ringAddr buf buf.got (i+k) := by
      simp only [ringAddr,Nat.add_assoc]
    rw [hcell,ringAddr_eq (hsp hf) (by omega),←hgot]
    exact ringCell_behind (by omega) hj
  · refine ⟨buf.ptr,store (scrAddr (buf.rchunk+i)) bs buf.scr,⟨fun _ _ => rfl,fun a ha => ?_⟩,rfl⟩
    apply store_other
    intro k hk
    change buf.rchunk+i+k≠a
    omega

/-- A store into a fetched area keeps the area fetched: the read call may
fill it in any order. -/
theorem StreamInv.stored {p : Ptr} {siz i : ℕ} {bs : List Byte}
    (h : StreamInv opts buf f (.fetched p siz) wp) (hi : i+bs.length ≤ siz) :
    StreamInv opts (storeAt buf ⟨p.area,p.off+i⟩ bs) f (.fetched p siz) wp := by
  obtain ⟨ptr,scr,hs,he⟩ := h.storeR hi
  have hw := h.writer.readSide hs buf.fastr buf.rstall buf.wstall buf.allin buf.rcrc
  rw [he]
  exact {h with
    ok := {h.ok with}
    ring := (load_congr hs.ring).trans h.ring
    reader := h.reader
    writer := hw}

/-- The bytes stored behind the read pointer are read back from it. -/
theorem loadAt_storeAt {bs : List Byte} (hn : bs.length≤buf.size)
    (hsp : buf.fastr=true → Spans buf buf.got bs.length) :
    loadAt (storeAt buf (readPtr buf) bs) (readPtr buf) bs.length=bs := by
  unfold readPtr
  split
  · next hf =>
    rw [storeAt_ring (hsp hf)]
    have hsp' : Spans {buf with ptr := store (ringCell buf.size buf.got) bs buf.ptr}
      buf.got bs.length := hsp hf
    rw [loadAt_ring hsp']
    exact window_store buf.ptr hn
  · apply load_store
    intro i _ j _ he
    exact Nat.add_left_cancel he

/-- A read call that returns bytes leaves them behind the read pointer. -/
theorem StreamInv.data {p : Ptr} {siz : ℕ} {bs : List Byte}
    (h : StreamInv opts buf f (.fetched p siz) wp) (hpos : 0<bs.length) (hi : bs.length ≤ siz) :
    StreamInv opts (storeAt buf p bs) {f with pending := bs} (.got bs.length) wp := by
  obtain ⟨hp,hg,hptr,hsp⟩ := h.reader
  have hfit := h.ok.rfit
  have hblk := hg.2.1
  have hlt := hg.2.2
  have hspan : buf.fastr=true → Spans buf buf.got bs.length := by
    intro hf
    rcases hsp hf with hc|hc
    · exact .inl hc
    · exact .inr (by omega)
  have hload := loadAt_storeAt (by omega) hspan
  have hs := h.stored (i:=0) (by omega : 0+bs.length ≤ siz)
  obtain ⟨ptr,scr,_,he⟩ := h.storeR (i:=0) (by omega : 0+bs.length ≤ siz)
  change storeAt buf p bs=_ at he
  change StreamInv opts (storeAt buf p bs) f _ wp at hs
  have hsum := hs.rsum
  simp only [readCounted,hp,List.append_nil] at hsum
  rw [←hptr,he] at hload
  rw [he] at hs hsum ⊢
  have hread : loadAt (readSide buf ptr scr buf.fastr buf.rstall buf.wstall buf.allin buf.rcrc)
    (readPtr buf) bs.length=bs := by rwa [←hptr]
  exact {hs with
    reader := ⟨rfl,⟨hpos,hi.trans hblk,by change fill buf+bs.length<buf.size; omega⟩,hspan,hread⟩
    writer := hs.writer.rphase (fun hc => by cases hc)
    rsum := hsum}

/-- Committing a read moves the bytes into the ring and counts them. -/
theorem StreamInv.commitR {n : ℕ} (h : StreamInv opts buf f (.got n) wp) :
    StreamInv opts (bufCommitR buf n) f (.stored n) wp := by
  obtain ⟨hn,hg,hsp,hload⟩ := h.reader
  have hlt := hg.2.2
  have hgot := h.ok.got_eq
  -- a read in place is in the ring already, a bounced one is scattered into it
  have hwin : window buf.size buf.got n (if buf.fastr=true then buf.ptr
      else store (ringCell buf.size buf.got) (loadAt buf (scrPtr buf.rchunk) n) buf.ptr)=
      f.pending := by
    by_cases hf : buf.fastr=true
    · rw [readPtr,if_pos hf,loadAt_ring (hsp hf)] at hload
      rw [if_pos hf,hload]
    · rw [readPtr,if_neg hf] at hload
      have hw : window buf.size buf.got f.pending.length
          (store (ringCell buf.size buf.got) f.pending buf.ptr)=f.pending :=
        window_store buf.ptr (by omega)
      rw [if_neg hf,hload]
      rwa [hn] at hw
  have hs : Spares buf (if buf.fastr=true then buf.ptr
      else store (ringCell buf.size buf.got) (loadAt buf (scrPtr buf.rchunk) n) buf.ptr)
      buf.scr := by
    refine ⟨fun j hj => ?_,fun _ _ => rfl⟩
    split
    · rfl
    · apply store_other
      intro k hk
      rw [loadAt_length] at hk
      rw [←hgot]
      exact ringCell_behind (by omega) hj
  obtain ⟨hcnt,hcrc⟩ := h.rsum
  rw [h.ok.ring.bufCommitR_eq (by omega)]
  have hw := h.writer.readSide hs buf.fastr buf.rstall buf.wstall
    (buf.allin+BitVec.ofNat 64 n)
    (if buf.dorcrc=true then crcCalc buf.rcrc (loadAt buf (readPtr buf) n) else buf.rcrc)
  exact {h with
    ok := {h.ok with}
    ring := (load_congr hs.ring).trans h.ring
    reader := ⟨hn,hg,hwin⟩
    writer := hw.rphase (fun hc => by cases hc)
    rsum := by
      refine ⟨?_,fun hd => ?_⟩
      · change buf.allin+BitVec.ofNat 64 n=BitVec.ofNat 64 (f.sent++f.pending).length
        rw [hcnt,readCounted,List.length_append,hn,BitVec.ofNat_add]
      · change (if buf.dorcrc=true then crcCalc buf.rcrc (loadAt buf (readPtr buf) n)
          else buf.rcrc)=crcCalc crcBeg (f.sent++f.pending)
        rw [if_pos hd,hload,hcrc hd,readCounted,crcCalc_append]}

/-- Offered bytes stay offered when more is published behind them. -/
theorem Offered.publish {rest more : List Byte} {k z n : ℕ} (h : Offered opts buf rest rp k z)
    (hfill : fill (bufCommitRf buf n)=fill buf+n) (hrest : rest.length=fill buf)
    (hc : rp≠.closed) : Offered opts (bufCommitRf buf n) (rest++more) rp' k z where
  le := by
    have := h.le
    omega
  block := h.block
  bytes := by
    rw [List.take_append_of_le_length (by rw [hrest]; exact h.le)]
    exact h.bytes
  span := h.span
  pad := fun hz => absurd (h.pad hz).closed hc

/-- The writing side's part survives publishing. -/
theorem WriterAt.publish {n : ℕ} (h : WriterAt opts buf f rp wp)
    (hfill : fill (bufCommitRf buf n)=fill buf+n) (hcount : f.sent.length=f.cout+fill buf)
    (hc : rp≠.closed) :
    WriterAt opts (bufCommitRf buf n) {f with sent := f.sent++f.pending,pending := []} rp' wp := by
  have hrest : (f.sent.drop f.cout).length=fill buf := by
    rw [List.length_drop]
    omega
  have htake : (f.sent++f.pending).take f.cout=f.sent.take f.cout :=
    List.take_append_of_le_length (by omega)
  have hdrop : (f.sent++f.pending).drop f.cout=f.sent.drop f.cout++f.pending :=
    List.drop_append_of_le_length (by omega)
  have hgrant : ∀ siz,GrantW buf siz → GrantW (bufCommitRf buf n) siz :=
    fun siz hg => ⟨hg.1,hg.2.1,hg.2.2.trans (by omega)⟩
  cases wp with
  | idle =>
    obtain ⟨z,ho,hz⟩ := h
    exact ⟨z,by rw [htake]; exact ho,fun hp => absurd (hz hp).closed hc⟩
  | granted siz => exact ⟨by rw [htake]; exact h.1,hgrant siz h.2⟩
  | final siz => exact absurd h.2.2.1 hc
  | fetched p siz pad =>
    refine ⟨by rw [htake]; exact h.1,h.2.1,?_⟩
    rw [hdrop]
    exact h.2.2.publish hfill hrest hc
  | wrote k z =>
    refine ⟨?_,by rw [hdrop]; exact h.2.publish hfill hrest hc⟩
    rw [htake,hdrop,List.take_append_of_le_length (by rw [hrest]; exact h.2.le)]
    exact h.1
  | counted k z =>
    refine ⟨?_,by rw [hfill]; exact h.2.1.trans (by omega),
      fun hz => absurd (h.2.2 hz).closed hc⟩
    rw [htake,hdrop,List.take_append_of_le_length (by rw [hrest]; exact h.2.1)]
    exact h.1

/-- Publishing appends the pending bytes to the unread part of the ring. -/
theorem StreamInv.commitRf {n : ℕ} (h : StreamInv opts buf f (.stored n) wp) :
    StreamInv opts (bufCommitRf buf n) {f with sent := f.sent++f.pending,pending := []} .idle
      wp := by
  obtain ⟨hn,hg,hwin⟩ := h.reader
  have hcount := h.count
  have hfill := h.ok.fill_commitRf hg.2.2
  exact {
    ok := h.ok.commitRf n
    block := h.block
    wblk := h.wblk
    dorcrc := h.dorcrc
    dowcrc := h.dowcrc
    count := by
      change (f.sent++f.pending).length=f.cout+fill (bufCommitRf buf n)
      rw [List.length_append,hfill]
      omega
    ring := by
      change window buf.size buf.did (fill (bufCommitRf buf n)) buf.ptr=
        (f.sent++f.pending).drop f.cout
      rw [hfill,window_add,h.ring,h.ok.got_eq,hwin,List.drop_append_of_le_length (by omega)]
    reader := rfl
    writer := h.writer.publish hfill hcount (fun hc => by cases hc)
    rsum := by
      have hs := h.rsum
      simp only [readCounted,List.append_nil] at hs ⊢
      exact hs
    wsum := by
      have hs := h.wsum
      have htake : (f.sent++f.pending).take f.cout=f.sent.take f.cout :=
        List.take_append_of_le_length (by omega)
      cases wp <;> simp only [writeCounted,htake] at hs ⊢ <;> exact hs}

/-! ## The writing side -/

/-- A write decision changes no part of the stream. -/
theorem StreamInv.canW (h : StreamInv opts buf f rp wp) :
    StreamInv opts (bufCanW buf).2 f rp wp := by
  obtain ⟨st,hs⟩ := bufCanW_snd buf
  have hok := h.ok.canW
  have hw := h.writer.readSide .refl buf.fastr buf.rstall st buf.allin buf.rcrc
  rw [hs] at hok ⊢
  exact {h with
    ok := hok
    writer := hw}

/-- While something is left, nothing was padded. -/
theorem StreamInv.unpadded (h : StreamInv opts buf f rp .idle) (hf : 0<fill buf) :
    f.out=f.sent.take f.cout := by
  obtain ⟨z,ho,hz⟩ := h.writer
  rcases Nat.eq_zero_or_pos z with rfl|hp
  · rwa [List.replicate_zero,List.append_nil] at ho
  · have hl := (hz hp).last
    omega

/-- The grant of a write decision is one that the writer may hold. -/
theorem StreamInv.grantW (h : StreamInv opts buf f rp .idle) (hz : (bufCanW buf).1≠0) :
    StreamInv opts (bufCanW buf).2 f rp (.granted (bufCanW buf).1) := by
  have hg := h.ok.grantW hz
  have hc := h.canW
  have ho := h.unpadded (hg.1.trans_le hg.2.2)
  obtain ⟨st,hs⟩ := bufCanW_snd buf
  rw [hs] at hc ⊢
  exact {hc with writer := ⟨ho,hg⟩}

/-- Once the reading side is closed, a short grant is all that is left. -/
theorem StreamInv.grantFinal (h : StreamInv opts buf f .closed .idle)
    (hz : (bufCanW buf).1≠0) :
    StreamInv opts (bufCanW buf).2 f .closed (.final (bufCanW buf).1) := by
  have hg := h.ok.grantW hz
  have hb := bufCanW_block_or_fill hz
  have hc := h.canW
  have ho := h.unpadded (hg.1.trans_le hg.2.2)
  obtain ⟨st,hs⟩ := bufCanW_snd buf
  rw [hs] at hc ⊢
  exact {hc with writer := ⟨ho,hg,rfl,hb⟩}

/-- A held write grant may be given up. -/
theorem StreamInv.dropW {siz : ℕ} (h : StreamInv opts buf f rp (.granted siz)) :
    StreamInv opts buf f rp .idle :=
  {h with
    writer := ⟨0,by rw [List.replicate_zero,List.append_nil]; exact h.writer.1,
      fun hz => absurd hz (lt_irrefl 0)⟩}

/-- So may an area that was offered. -/
theorem StreamInv.abandonW {p : Ptr} {siz pad : ℕ}
    (h : StreamInv opts buf f rp (.fetched p siz pad)) : StreamInv opts buf f rp .idle :=
  {h with
    writer := ⟨0,by rw [List.replicate_zero,List.append_nil]; exact h.writer.1,
      fun hz => absurd hz (lt_irrefl 0)⟩}

/-- The head of the unread part of the ring. -/
theorem StreamInv.head (h : StreamInv opts buf f rp wp) {siz : ℕ} (hs : siz≤fill buf) :
    window buf.size buf.did siz buf.ptr=(f.sent.drop f.cout).take siz := by
  rw [←h.ring,window_take _ _ _ hs]

/-- Fetching through the bounce chunk offers the head of the ring. -/
theorem StreamInv.bounceW (h : StreamInv opts buf f rp wp) {siz : ℕ} (hg : GrantW buf siz) :
    let buf' := (ibufFetchWbounce buf siz).2
    (ibufFetchWbounce buf siz).1=writePtr buf' ∧
      (∃ scr,buf'=writeSide buf scr false buf.allout buf.wcrc ∧ ∀ a<buf.wchunk,scr a=buf.scr a) ∧
      loadAt buf' (writePtr buf') siz=(f.sent.drop f.cout).take siz := by
  have hfit := h.ok.wfit
  have hblk := hg.2.1
  have hhead := h.head hg.2.2
  rw [h.ok.ring.ibufFetchWbounce_eq (by omega)]
  refine ⟨rfl,⟨_,rfl,fun a ha => ?_⟩,?_⟩
  · apply store_other
    intro i _
    change buf.wchunk+i≠a
    omega
  · rw [←hhead]
    have hload : load (scrAddr buf.wchunk) (window buf.size buf.did siz buf.ptr).length
        (store (scrAddr buf.wchunk) (window buf.size buf.did siz buf.ptr) buf.scr)=
        window buf.size buf.did siz buf.ptr :=
      load_store fun i _ j _ he => Nat.add_left_cancel he
    rw [window_length] at hload
    exact hload

/-- Fetching a grant offers the head of the ring, in place or bounced. -/
theorem StreamInv.offerW (h : StreamInv opts buf f rp wp) {siz : ℕ} (hg : GrantW buf siz)
    (ho : f.out=f.sent.take f.cout) (hsum : writeCounted f wp=f.out) :
    StreamInv opts (bufFetchW buf siz).2 f rp (.fetched (bufFetchW buf siz).1 siz 0) := by
  have hfit := h.ok.wfit
  have hblk := hg.2.1
  have hle := hg.2.2
  have hwblk := h.wblk
  have hws := h.wsum
  rw [hsum] at hws
  rcases h.ok.ring.bufFetchW_eq (by omega : siz≤buf.size) with ⟨hsp,he⟩|he
  · rw [he]
    refine {h with
      ok := {h.ok with}
      writer := ⟨ho,rfl,?_⟩
      wsum := hws}
    have hsp' : Spans {buf with fastw := true} buf.did siz := hsp
    refine ⟨hle,by omega,?_,fun _ => ⟨hsp,rfl⟩,fun hz => absurd hz (lt_irrefl 0)⟩
    rw [List.replicate_zero,List.append_nil,Nat.add_zero,←h.head hle]
    exact loadAt_ring hsp'
  · obtain ⟨hptr,⟨scr,hb,hscr⟩,hload⟩ := h.bounceW hg
    rw [he,hptr]
    rw [hb] at hload ⊢
    have hr := ReaderAt.writeSide h.reader h.ok hscr false buf.allout buf.wcrc
    refine {h with
      ok := {h.ok with}
      reader := hr
      writer := ⟨ho,rfl,?_⟩
      wsum := hws}
    refine ⟨hle,by omega,?_,nofun,fun hz => absurd hz (lt_irrefl 0)⟩
    rw [List.replicate_zero,List.append_nil,Nat.add_zero]
    exact hload

/-- Fetching a held grant. -/
theorem StreamInv.fetchW {siz : ℕ} (h : StreamInv opts buf f rp (.granted siz)) :
    StreamInv opts (bufFetchW buf siz).2 f rp (.fetched (bufFetchW buf siz).1 siz 0) :=
  h.offerW h.writer.2 h.writer.1 rfl

/-- The fetch of the epilogue offers the head of the ring and, in strict
mode, fills the last block up with zeros. -/
theorem StreamInv.epiFetch {siz : ℕ} (h : StreamInv opts buf f rp (.final siz)) :
    StreamInv opts (epiFetch opts buf siz).2.2 f rp
      (.fetched (epiFetch opts buf siz).1 siz (epiFetch opts buf siz).2.1) := by
  obtain ⟨ho,hg,hcl,hlast⟩ := h.writer
  have hwblk := h.wblk
  have hle := hg.2.2
  have hpos := hg.1
  have hwc := h.ok.wchunkOk
  unfold Shared.epiFetch
  by_cases hc : siz<opts.wblk ∧ opts.strict=true
  · rw [if_pos hc]
    dsimp only
    obtain ⟨hptr,⟨scr,hb,hscr⟩,hload⟩ := h.bounceW hg
    rw [show bufForcefetchW buf siz=ibufFetchWbounce buf siz from rfl,hptr]
    rw [hb] at hload ⊢
    generalize hz : opts.wblk-siz=pad
    have hkept : ∀ a<buf.wchunk,
        store (scrAddr (buf.wchunk+siz)) (List.replicate pad 0) scr a=buf.scr a := by
      intro a ha
      rw [store_other fun i _ => by change buf.wchunk+siz+i≠a; omega]
      exact hscr a ha
    have hr := ReaderAt.writeSide h.reader h.ok hkept false buf.allout buf.wcrc
    refine {h with
      ok := {h.ok with}
      reader := hr
      writer := ⟨ho,rfl,?_⟩}
    refine ⟨hle,by omega,?_,nofun,fun _ => ⟨hcl,?_,by omega,hc.2⟩⟩
    swap
    · change siz=fill buf
      omega
    change load (scrAddr buf.wchunk) (siz+pad)
      (store (scrAddr (buf.wchunk+siz)) (List.replicate pad 0) scr)=_
    change load (scrAddr buf.wchunk) siz scr=_ at hload
    rw [load_add,←hload,←scrAddr_add]
    congr 1
    · apply load_congr
      intro i hi
      exact store_other fun k _ => by change buf.wchunk+siz+k≠buf.wchunk+i; omega
    · have hs : load (scrAddr (buf.wchunk+siz)) (List.replicate pad (0 : Byte)).length
          (store (scrAddr (buf.wchunk+siz)) (List.replicate pad 0) scr)=List.replicate pad 0 :=
        load_store fun i _ j _ he => Nat.add_left_cancel he
      rwa [List.length_replicate] at hs
  · rw [if_neg hc]
    exact h.offerW hg ho rfl

/-- A write call accepts a prefix of the offered area. -/
theorem StreamInv.wrote {p : Ptr} {siz pad n : ℕ}
    (h : StreamInv opts buf f rp (.fetched p siz pad)) (hn : n ≤ siz+pad) :
    StreamInv opts buf {f with out := f.out++loadAt buf p n} rp (.wrote (min siz n) (n-siz)) := by
  obtain ⟨ho,rfl,hoff⟩ := h.writer
  have hcount := h.count
  have hle := hoff.le
  have hblk := hoff.block
  have hrest : (f.sent.drop f.cout).length=fill buf := by
    rw [List.length_drop]
    omega
  have hsum : min siz n+(n-siz)=n := by omega
  have hbytes : loadAt buf (writePtr buf) n=
      (f.sent.drop f.cout).take (min siz n)++List.replicate (n-siz) 0 := by
    rw [←loadAt_take buf _ hn,hoff.bytes,List.take_append,List.take_take,List.length_take,hrest,
      Nat.min_eq_left hle,List.take_replicate,Nat.min_comm siz n,
      Nat.min_eq_left (by omega : n-siz≤pad)]
  have hws := h.wsum
  simp only [writeCounted,ho] at hws
  exact {h with
    writer := by
      refine ⟨by rw [ho,hbytes],by omega,by omega,by rw [hsum]; exact hbytes,fun hf => ?_,
        fun hz => ?_⟩
      · obtain ⟨hsp,hz⟩ := hoff.span hf
        refine ⟨?_,by omega⟩
        rcases hsp with hs|hs
        · exact .inl hs
        · exact .inr (by omega)
      · have hp := hoff.pad (by omega)
        have hl := hp.last
        have hsh := hp.short
        exact {hp with
          last := by omega
          short := by omega}
    wsum := hws}

/-- Committing a write counts exactly the accepted bytes. -/
theorem StreamInv.commitW {k z : ℕ} (h : StreamInv opts buf f rp (.wrote k z)) :
    StreamInv opts (bufCommitW buf (k+z)) f rp (.counted k z) := by
  obtain ⟨ho,hoff⟩ := h.writer
  have hcount := h.count
  have hle := hoff.le
  have hrest : (f.sent.drop f.cout).length=fill buf := by
    rw [List.length_drop]
    omega
  have hlen : ((f.sent.drop f.cout).take k++List.replicate z (0 : Byte)).length=k+z := by
    rw [List.length_append,List.length_take,List.length_replicate,hrest,Nat.min_eq_left hle]
  obtain ⟨hcnt,hcrc⟩ := h.wsum
  rw [bufCommitW_eq]
  have hr := ReaderAt.writeSide h.reader h.ok (fun _ _ => rfl) buf.fastw
    (buf.allout+BitVec.ofNat 64 (k+z))
    (if buf.dowcrc=true then crcCalc buf.wcrc (loadAt buf (writePtr buf) (k+z)) else buf.wcrc)
  exact {h with
    ok := {h.ok with}
    reader := hr
    writer := ⟨ho,hle,fun hz => {hoff.pad hz with}⟩
    wsum := by
      refine ⟨?_,fun hd => ?_⟩
      · change buf.allout+BitVec.ofNat 64 (k+z)=BitVec.ofNat 64 f.out.length
        rw [ho,List.length_append,hlen,hcnt,writeCounted,←BitVec.ofNat_add]
      · change (if buf.dowcrc=true then crcCalc buf.wcrc (loadAt buf (writePtr buf) (k+z))
          else buf.wcrc)=crcCalc crcBeg f.out
        rw [if_pos hd,hoff.bytes,hcrc hd,ho]
        exact (crcCalc_append _ _ _).symm}

/-- The reading side's part survives a release. -/
theorem ReaderAt.release {pending : List Byte} {k : ℕ} (h : ReaderAt buf pending rp)
    (hfill : fill (bufCommitWf buf k)=fill buf-k) : ReaderAt (bufCommitWf buf k) pending rp := by
  have hgrant : ∀ siz,GrantR buf siz → GrantR (bufCommitWf buf k) siz := by
    intro siz hg
    have hlt := hg.2.2
    exact ⟨hg.1,hg.2.1,by rw [hfill]; change fill buf-k+siz<buf.size; omega⟩
  cases rp with
  | idle => exact h
  | closed => exact h
  | granted siz => exact ⟨h.1,hgrant siz h.2⟩
  | fetched p siz => exact ⟨h.1,hgrant siz h.2.1,h.2.2⟩
  | got n => exact ⟨h.1,hgrant n h.2.1,h.2.2⟩
  | stored n => exact ⟨h.1,hgrant n h.2.1,h.2.2⟩

/-- Releasing drops the written bytes from the unread part of the ring. -/
theorem StreamInv.commitWf {k z : ℕ} (h : StreamInv opts buf f rp (.counted k z)) :
    StreamInv opts (bufCommitWf buf k) {f with cout := f.cout+k} rp .idle := by
  obtain ⟨ho,hle,hpad⟩ := h.writer
  have hcount := h.count
  have hfill := h.ok.fill_commitWf hle
  have hdid := h.ok.commitWf_did k
  exact {
    ok := h.ok.commitWf k
    block := h.block
    wblk := h.wblk
    dorcrc := h.dorcrc
    dowcrc := h.dowcrc
    count := by
      change f.sent.length=f.cout+k+fill (bufCommitWf buf k)
      omega
    ring := by
      have hw := window_drop buf.size buf.did k (fill buf-k) buf.ptr
      rw [Nat.add_sub_cancel' hle,h.ring,List.drop_drop] at hw
      change window buf.size (bufCommitWf buf k).did (fill (bufCommitWf buf k)) buf.ptr=
        f.sent.drop (f.cout+k)
      rw [hfill,hdid,hw]
    reader := h.reader.release hfill
    writer := by
      refine ⟨z,?_,fun hz => ?_⟩
      · change f.out=f.sent.take (f.cout+k)++List.replicate z 0
        rw [ho,List.take_add,List.append_assoc]
      · have hp := hpad hz
        have hl := hp.last
        exact {hp with last := by rw [hfill]; omega}
    rsum := h.rsum
    wsum := h.wsum}

/-- Switching to draining changes no part of the stream. -/
theorem StreamInv.setlinew (h : StreamInv opts buf f rp .idle) :
    StreamInv opts (bufSetlinew buf) f rp .idle := by
  exact {h with
    ok := h.ok.setlinew
    writer := by
      obtain ⟨z,ho,hz⟩ := h.writer
      exact ⟨z,ho,fun hp => {hz hp with}⟩}

/-! ## What the invariant says -/

/-- The invariant of an accepted configuration before anything is moved. -/
theorem StreamInv.init (cfg : Config) :
    StreamInv cfg.opts cfg.buf (flow Trace.init) .idle .idle where
  ok := cfg.ok
  block := cfg.blockReader
  wblk := cfg.fresh.wblk
  dorcrc := cfg.fresh.dorcrc
  dowcrc := cfg.fresh.dowcrc
  count := by
    change 0=0+fill cfg.buf
    rw [cfg.fill_zero]
  ring := by
    rw [cfg.fill_zero]
    rfl
  reader := rfl
  writer := ⟨0,rfl,fun h => absurd h (lt_irrefl 0)⟩
  rsum := ⟨cfg.fresh.allin,fun _ => cfg.fresh.rcrc⟩
  wsum := ⟨cfg.fresh.allout,fun _ => cfg.fresh.wcrc⟩

/-- The region being filled stays clear of the unread window. -/
theorem StreamInv.disjoint (h : StreamInv opts buf f rp wp) {i j : ℕ} (hi : i<rp.extent)
    (hj : j<fill buf) : ringCell buf.size buf.got i≠ringCell buf.size buf.did j := by
  have hlt : fill buf+rp.extent≤buf.size := by
    have hr := h.reader
    have hf := h.ok.fill_lt
    cases rp with
    | granted siz => exact hr.2.2.2.le
    | fetched p siz => exact hr.2.1.2.2.le
    | got n => exact hr.2.1.2.2.le
    | stored n => exact hr.2.1.2.2.le
    | _ => exact hf.le
  rw [←h.ok.got_eq]
  exact ringCell_behind (by omega) hj

/-- The block being written out is part of the unread window. -/
theorem StreamInv.extent_le (h : StreamInv opts buf f rp wp) : wp.extent≤fill buf := by
  have hw := h.writer
  cases wp with
  | idle => exact Nat.zero_le _
  | granted siz => exact hw.2.2.2
  | final siz => exact hw.2.1.2.2
  | fetched p siz pad => exact hw.2.2.le
  | wrote k z => exact hw.2.le
  | counted k z => exact hw.2.1

/-- The output is `k` bytes of what was sent, followed by `z` bytes of padding
only after all of it. -/
structure Written (opts : OptionsS) (f : Flow) (rp : RPhase) (k z : ℕ) : Prop where
  /-- The output. -/
  out : f.out=f.sent.take k++List.replicate z 0
  /-- The bytes were sent. -/
  le : k≤f.sent.length
  /-- Padding is last. -/
  pad : 0<z → rp=.closed ∧ k=f.sent.length ∧ z<opts.wblk ∧ opts.strict=true

/-- Released bytes and those accepted after them are written. -/
theorem StreamInv.written (h : StreamInv opts buf f rp wp) {k z : ℕ}
    (ho : f.out=f.sent.take f.cout++((f.sent.drop f.cout).take k++List.replicate z 0))
    (hk : k≤fill buf) (hp : 0<z → Padding opts buf rp k z) :
    Written opts f rp (f.cout+k) z := by
  have hcount := h.count
  refine ⟨by rw [ho,List.take_add,List.append_assoc],by omega,fun hz => ?_⟩
  have hl := (hp hz).last
  exact ⟨(hp hz).closed,by omega,(hp hz).short,(hp hz).strict⟩

/-- The output is always a prefix of what was sent, followed by padding. -/
theorem StreamInv.output (h : StreamInv opts buf f rp wp) : ∃ k z,Written opts f rp k z := by
  have hw := h.writer
  have hplain : f.out=f.sent.take f.cout → ∃ k z,Written opts f rp k z := fun ho =>
    ⟨_,0,h.written (k:=0) (by rw [ho]; simp) (Nat.zero_le _) fun hz => absurd hz (lt_irrefl 0)⟩
  cases wp with
  | idle =>
    obtain ⟨z,ho,hp⟩ := hw
    exact ⟨_,z,h.written (k:=0) ho (Nat.zero_le _) hp⟩
  | granted siz => exact hplain hw.1
  | final siz => exact hplain hw.1
  | fetched p siz pad => exact hplain hw.1
  | wrote k z => exact ⟨_,z,h.written hw.1 hw.2.le hw.2.pad⟩
  | counted k z => exact ⟨_,z,h.written hw.1 hw.2.1 hw.2.2⟩

/-- Once the reading side is closed, an idle writing side over an empty buffer
has written everything. -/
theorem StreamInv.delivered (h : StreamInv opts buf f .closed .idle) (hz : fill buf=0) :
    ∃ z,f.out=f.sent++f.pending++List.replicate z 0 ∧
      (0<z → z<opts.wblk ∧ opts.strict=true) := by
  obtain ⟨z,ho,hp⟩ := h.writer
  have hpend : f.pending=[] := h.reader
  have hcount := h.count
  refine ⟨z,?_,fun hz => ⟨(hp hz).short,(hp hz).strict⟩⟩
  rw [ho,hpend,List.append_nil,List.take_of_length_le (by omega)]

end Yancat.ByteStream
