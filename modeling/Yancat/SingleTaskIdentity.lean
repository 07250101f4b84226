import Yancat.SingleTaskStream

/-!
# The single process as the identity on the stream

A single process that has ended without a failed write has written its input.
By turns of one read and one write it can move any number of bytes, so its
counters agree with the lengths of both streams up to their width only.
-/

namespace Yancat.SingleTask

open Crc Buffer Setup Shared Transition ByteStream

section Turns

/-- A buffer of the smallest transfer that holds `k` bytes and stalls neither
side. -/
structure Holds (k : ℕ) (buf : BufS) : Prop where
  /-- The geometry. -/
  ok : BufOk buf
  /-- The bytes held. -/
  fill : fill buf=k
  /-- Reads are not stalled. -/
  rstall : buf.rstall=false
  /-- Writes are not stalled. -/
  wstall : buf.wstall=false
  /-- The read block. -/
  rblk : buf.rblk=2
  /-- The write block. -/
  wblk : buf.wblk=2
  /-- The write minimum. -/
  wmin : buf.wmin=2
  /-- No resume point holds writes back. -/
  wsp : buf.wsp=0
  /-- The ring. -/
  size : buf.size=4096

variable {k : ℕ} {buf buf' : BufS}

/-- Moving bytes about keeps the amount held. -/
theorem Holds.moved (h : Holds k buf) (hm : Moved buf buf') : Holds k buf' := by
  have hok := hm.ok h.ok
  obtain ⟨_,_,_,_,_,_,_,_,rfl⟩ := hm
  exact {h with ok := hok}

/-- An almost empty buffer grants a block of space. -/
theorem Holds.canR (h : Holds k buf) (hk : k≤2) : bufCanR buf=(2,buf) := by
  have hs := h.ok.space_eq
  have hf := h.fill
  have hz := h.size
  have hb := h.rblk
  rw [bufCanR_block h.rstall (by omega),hb]

/-- A block of data is granted. -/
theorem Holds.canW (h : Holds 2 buf) : bufCanW buf=(2,buf) := by
  have hf := h.fill
  have hb := h.wblk
  rw [bufCanW_block h.wstall (by omega),hb]

/-- An empty buffer refuses. -/
theorem Holds.canW_empty (h : Holds 0 buf) : bufCanW buf=(0,buf) := by
  have hf := h.fill
  have hb := h.wblk
  have hm := h.wmin
  exact bufCanW_short h.wstall h.wsp (by omega) (by omega)

/-- Publishing two bytes. -/
theorem Holds.commitRf (h : Holds 0 buf) : Holds 2 (bufCommitRf buf 2) := by
  have hf := h.fill
  have hz := h.size
  have he := h.ok.fill_commitRf (n:=2) (by omega)
  exact {h with
    ok := h.ok.commitRf 2
    fill := by rw [he,hf]}

/-- Releasing two bytes. -/
theorem Holds.commitWf (h : Holds 2 buf) : Holds 0 (bufCommitWf buf 2) := by
  have hf := h.fill
  have he := h.ok.fill_commitWf (n:=2) (by omega)
  exact {h with
    ok := h.ok.commitWf 2
    fill := by rw [he,hf]}

section Segments

variable (opts : OptionsS) (shm : ShrS) (tr : Trace) (hnd : Option MarkPc) (cnt : ℕ)

/-- A turn of the read loop under a grant. -/
theorem read_run (bs : List Byte) (hpos : 0<bs.length)
    (hle : bs.length≤(bufCanR shm.buf).1) :
    ∃ buf',Moved (bufCanR shm.buf).2 buf' ∧
      Run (step opts) undisturbed ⟨shm,tr,.rtest (cnt+1),hnd⟩
        ⟨{shm with buf := bufCommitRf buf' bs.length},
          {tr with inp := tr.inp++bs,cin := tr.cin+bs.length},.rtest cnt,hnd⟩ := by
  have hgo : ¬((bufCanR shm.buf).1=0 ∨ cnt+1=0) := by omega
  refine ⟨_,((bufFetchR_moved _ (bufCanR shm.buf).1).trans
    (storeAt_moved _ (bufFetchR (bufCanR shm.buf).2 (bufCanR shm.buf).1).1 bs)).trans
    (bufCommitR_moved _ bs.length),?_⟩
  -- decision, fetch, read call, commit, publication
  exact .head (a:=.task .tau) rfl (if_neg hgo) <| .head (a:=.task .tau) rfl rfl <|
    .head (a:=.task (.data bs)) rfl (if_pos ⟨hpos,hle⟩) <| .head (a:=.task .tau) rfl rfl <|
    .single (a:=.task .tau) rfl rfl

/-- A turn of the write loop under a grant, the whole of which is accepted. -/
theorem write_run (hz : (bufCanW shm.buf).1≠0) :
    ∃ buf' tr',Moved (bufCanW shm.buf).2 buf' ∧
      Run (step opts) undisturbed ⟨shm,tr,.wtest (cnt+1),hnd⟩
        ⟨{shm with buf := bufCommitWf buf' (bufCanW shm.buf).1},tr',.wtest cnt,hnd⟩ ∧
      tr'.inp=tr.inp := by
  have hgo : ¬((bufCanW shm.buf).1=0 ∨ cnt+1=0) := by omega
  -- decision, fetch, write call, commit, release
  exact ⟨_,_,(bufFetchW_moved _ (bufCanW shm.buf).1).trans
    (bufCommitW_moved _ (bufCanW shm.buf).1),
    .head (a:=.task .tau) rfl (if_neg hgo) <| .head (a:=.task .tau) rfl rfl <|
    .head (a:=.task (.wrote (bufCanW shm.buf).1)) rfl (if_pos (le_refl _)) <|
    .head (a:=.task .tau) rfl rfl <| .single (a:=.task .tau) rfl rfl,rfl⟩

/-- With its count used up the read loop leaves the buffer to the write loop. -/
theorem rskip_run : Run (step opts) undisturbed ⟨shm,tr,.rtest 0,hnd⟩
    ⟨{shm with buf := (bufCanR shm.buf).2},tr,.wtest opts.wcnt,hnd⟩ :=
  .single (a:=.task .tau) rfl (if_pos (.inr rfl))

/-- With its count used up the write loop ends the turn. -/
theorem wskip_run : Run (step opts) undisturbed ⟨shm,tr,.wtest 0,hnd⟩
    ⟨{shm with buf := (bufCanW shm.buf).2},tr,.top,hnd⟩ :=
  .single (a:=.task .tau) rfl (if_pos (.inr rfl))

/-- A read under a grant that finds the end of the input. -/
theorem eof_run (hz : (bufCanR shm.buf).1≠0) :
    ∃ buf',Moved (bufCanR shm.buf).2 buf' ∧
      Run (step opts) undisturbed ⟨shm,tr,.rtest (cnt+1),hnd⟩
        ⟨{shm with buf := buf'},{tr with eof := true},.out false false,hnd⟩ := by
  have hgo : ¬((bufCanR shm.buf).1=0 ∨ cnt+1=0) := by omega
  exact ⟨_,bufFetchR_moved _ (bufCanR shm.buf).1,
    .head (a:=.task .tau) rfl (if_neg hgo) <| .head (a:=.task .tau) rfl rfl <|
    .single (a:=.task .eof) rfl rfl⟩

/-- An epilogue that finds nothing left. -/
theorem drained_run (hz : (bufCanW (bufSetlinew shm.buf)).1=0) :
    Run (step opts) undisturbed ⟨shm,tr,.out false false,hnd⟩
      ⟨{shm with buf := (bufCanW (bufSetlinew shm.buf)).2},tr,.ended,hnd⟩ := by
  have hend : step opts ⟨{shm with buf := bufSetlinew shm.buf},tr,.epi false .top,hnd⟩
      (.task .tau)=
      some ⟨{shm with buf := (bufCanW (bufSetlinew shm.buf)).2},tr,.fin false,hnd⟩ := by
    simp only [step,taskStep,transferWriterEpi,hz]
    rfl
  exact .head (a:=.task .tau) rfl rfl <| .head (a:=.task .tau) rfl rfl <|
    .head (a:=.task .tau) rfl hend <| .single (a:=.task .tau) rfl rfl

end Segments

/-- The process at its outer loop test with `2n` bytes behind it and an empty
buffer. -/
structure Turn (n : ℕ) (s : SSys) : Prop where
  /-- The position. -/
  pc : s.pc=.top
  /-- The loop goes on. -/
  done : s.shm.done=false
  /-- The buffer is empty. -/
  buf : Holds 0 s.shm.buf
  /-- The bytes read. -/
  inp : s.tr.inp.length=2*n

/-- A turn begins with the read loop. -/
theorem Turn.enter {n : ℕ} {s : SSys} (h : Turn n s) :
    Run (step (smallOpts 2 false false)) undisturbed s ⟨s.shm,s.tr,.rtest 1,s.hnd⟩ := by
  obtain ⟨shm,tr,pc,hnd⟩ := s
  cases h.pc
  have hd : ¬shm.done=true := by
    rw [h.done]
    exact Bool.false_ne_true
  exact .single (a:=.task .tau) rfl (if_neg hd)

/-- One turn reads two bytes and writes them. -/
theorem Turn.next {n : ℕ} {s : SSys} (h : Turn n s) :
    ∃ t,Run (step (smallOpts 2 false false)) undisturbed s t ∧ Turn (n+1) t := by
  have hcr := h.buf.canR (by omega)
  obtain ⟨b1,hm1,hread⟩ := read_run (smallOpts 2 false false) s.shm s.tr s.hnd 0 [0,0] Nat.two_pos
    (by rw [hcr]; exact le_refl 2)
  rw [hcr] at hm1
  have hb1 : Holds 2 (bufCommitRf b1 2) := (h.buf.moved hm1).commitRf
  have hrskip := rskip_run (smallOpts 2 false false) {s.shm with buf := bufCommitRf b1 2}
    {s.tr with inp := s.tr.inp++[0,0],cin := s.tr.cin+2} s.hnd
  dsimp only at hrskip
  rw [hb1.canR (le_refl 2)] at hrskip
  have hcw := hb1.canW
  obtain ⟨b2,tr2,hm2,hwrite,hinp⟩ := write_run (smallOpts 2 false false)
    {s.shm with buf := bufCommitRf b1 2} {s.tr with inp := s.tr.inp++[0,0],cin := s.tr.cin+2} s.hnd
    0 (by rw [hcw]; exact two_ne_zero)
  dsimp only at hm2 hwrite
  rw [hcw] at hm2 hwrite
  have hb2 : Holds 0 (bufCommitWf b2 2) := (hb1.moved hm2).commitWf
  have hwskip := wskip_run (smallOpts 2 false false) {s.shm with buf := bufCommitWf b2 2} tr2 s.hnd
  dsimp only at hwskip
  rw [hb2.canW_empty] at hwskip
  refine ⟨_,(((h.enter.trans hread).trans hrskip).trans hwrite).trans hwskip,rfl,h.done,hb2,?_⟩
  rw [hinp,List.length_append,h.inp]
  rfl

/-- The process reaches its loop after two open calls. -/
theorem Turn.start :
    ∃ t,Run (step (smallOpts 2 false false)) undisturbed (SSys.init (small false false).buf) t ∧
      Turn 0 t := by
  have hf := (small false false).fresh
  refine ⟨_,.head (a:=.task (.opened true)) rfl rfl <|
    .single (a:=.task (.opened true)) rfl rfl,rfl,rfl,?_,rfl⟩
  exact {
    ok := (small false false).ok
    fill := (small false false).fill_zero
    rstall := hf.rstall
    wstall := hf.wstall
    rblk := hf.rblk
    wblk := hf.wblk
    wmin := hf.wmin
    wsp := hf.wsp
    size := rfl}

/-- Any number of turns can be taken. -/
theorem Turn.all (n : ℕ) :
    ∃ t,Run (step (smallOpts 2 false false)) undisturbed (SSys.init (small false false).buf) t ∧
      Turn n t := by
  induction n with
  | zero => exact Turn.start
  | succ n ih =>
    obtain ⟨s,hs,hn⟩ := ih
    obtain ⟨t,ht,hm⟩ := hn.next
    exact ⟨t,hs.trans ht,hm⟩

/-- An empty buffer refuses to the epilogue as well. -/
theorem Holds.drained (h : Holds 0 buf) : (bufCanW (bufSetlinew buf)).1=0 := by
  by_contra hz
  have hg := h.ok.setlinew.grantW hz
  have hf : Buffer.fill (bufSetlinew buf)=0 := h.fill
  have hpos := hg.1
  have hle := hg.2.2
  omega

/-- At the end of the input the process ends. -/
theorem Turn.finish {n : ℕ} {s : SSys} (h : Turn n s) :
    ∃ t,Run (step (smallOpts 2 false false)) undisturbed s t ∧ t.pc=.ended ∧
      t.tr.inp.length=2*n := by
  have hcr := h.buf.canR (by omega)
  obtain ⟨b1,hm1,heof⟩ := eof_run (smallOpts 2 false false) s.shm s.tr s.hnd 0
    (by rw [hcr]; exact two_ne_zero)
  rw [hcr] at hm1
  have hend := drained_run (smallOpts 2 false false) {s.shm with buf := b1}
    {s.tr with eof := true} s.hnd (h.buf.moved hm1).drained
  exact ⟨_,(h.enter.trans heof).trans hend,rfl,h.inp⟩

/-- A process that nothing disturbs moves as many bytes as the counter has
values, and ends with a counter of zero. -/
theorem counter_wraps : ∃ t,
    Run (step (smallOpts 2 false false)) undisturbed (SSys.init (small false false).buf) t ∧
      t.pc=.ended ∧ t.tr.inp.length=2^64 ∧ t.shm.buf.allin=0 := by
  obtain ⟨s,hs,hn⟩ := Turn.all (2^63)
  obtain ⟨t,ht,hpc,hinp⟩ := hn.finish
  have hr := hs.trans ht
  have hst := (view_data (small false false) rfl hr).2
  rw [hpc] at hst
  have hcnt : t.shm.buf.allin=BitVec.ofNat 64 ((flow t.tr).sent++(flow t.tr).pending).length :=
    hst.rsum.1
  rw [flow_all,hinp] at hcnt
  exact ⟨t,hr,hpc,hinp,hcnt⟩

end Turns

/-- The single process is the identity on the stream. Whenever it has ended
and no write failed, the output is the input in order, followed by less than a
block of zeros in strict mode and by nothing otherwise; the buffer is empty
and the counters agree with both lengths up to their width. In every state the
output so far is a prefix of the input, followed by padding only after its
end. -/
theorem single_task_identity (cfg : Config) (hb : cfg.opts.rline=false) {s : SSys}
    (h : Reach (step cfg.opts) (SSys.init cfg.buf) s) :
    (s.pc=.ended → s.tr.wfail=false →
      Delivered cfg.opts s.tr ∧
      fill s.shm.buf=0 ∧ s.shm.buf.allin=BitVec.ofNat 64 s.tr.inp.length ∧
      s.shm.buf.allout=BitVec.ofNat 64 s.tr.out.length) ∧
    ∃ k z,s.tr.out=s.tr.inp.take k++List.replicate z 0 ∧
      (0<z → k=s.tr.inp.length ∧ z<cfg.opts.wblk ∧ cfg.opts.strict=true) := by
  obtain ⟨hcin,hst⟩ := view_data cfg hb h
  refine ⟨fun hpc hw => ?_,?_⟩
  · have hd := (DrainInv.run cfg h).drains
    rw [hpc] at hd hst
    have hz := hd hw
    have hcnt : s.shm.buf.allin=BitVec.ofNat 64 ((flow s.tr).sent++(flow s.tr).pending).length :=
      hst.rsum.1
    rw [flow_all] at hcnt
    exact ⟨StreamInv.delivers hst hz,hz,hcnt,hst.wsum.1⟩
  · have hi : DataInv cfg.opts s.view := ⟨hcin,hst⟩
    obtain ⟨k,z,ho,_,hz⟩ := hi.output
    exact ⟨k,z,ho,fun hp => (hz hp).2⟩

/-- Three bytes through blocks of two, padded. -/
theorem single_task_identity_three :
    ∃ s,Reach (step (small false true).opts) (SSys.init (small false true).buf) s ∧
      s.pc=.ended ∧ fill s.shm.buf=0 := by
  obtain ⟨s,hr,hpc⟩ := exec_reach (f:=fun s : SSys => (s.pc,s.tr.wfail)) (by rfl :
    (exec (step (small false true).opts) (SSys.init (small false true).buf)
      ([.opened true,.opened true,.tau,.tau,.tau,.data [1,2],.tau,.tau,.tau,.tau,.tau,.wrote 2,.tau,
        .tau,.tau,.tau,.tau,.tau,.data [3],.tau,.tau,.tau,.tau,.tau,.tau,.tau,.eof,.tau,.tau,.tau,
        .tau,.wrote 2,.tau,.tau,.tau,.tau].map .task)).map (fun s : SSys => (s.pc,s.tr.wfail))=
      some (.ended,false))
  have hpe := congrArg Prod.fst hpc
  have hwf := congrArg Prod.snd hpc
  exact ⟨s,hr,hpe,((single_task_identity (small false true) rfl hr).1 hpe hwf).2.1⟩

/-- After 2^64 bytes the input counter is not the length of the input. -/
theorem single_task_counter_wraps : ¬∀ (cfg : Config) (t : SSys),cfg.opts.rline=false →
    Run (step cfg.opts) undisturbed (SSys.init cfg.buf) t → t.pc=.ended →
    t.shm.buf.allin.toNat=t.tr.inp.length := by
  intro hall
  obtain ⟨t,hr,hpc,hinp,hcnt⟩ := counter_wraps
  have he := hall (small false false) t rfl hr hpc
  rw [hcnt,hinp] at he
  exact absurd he (by decide)

end Yancat.SingleTask
