import Yancat.SingleTaskIdentity
import Yancat.TwoTaskStream

/-!
# Counters and checksums

What either side has counted is a prefix of its calls' bytes, short only by a
call whose commit is still due. Counters and registers describe exactly that
prefix, the counters up to their width.
-/

namespace Yancat.Checksums

open Crc Buffer Setup Shared Transition ByteStream SingleTask TwoTask

/-- Bytes returned by reads and committed: all but those of a read whose
commit is due. -/
def committedIn (t : Trace) : RPhase → List Byte
  | .got n => t.inp.take (t.inp.length-n)
  | _ => t.inp

/-- Bytes accepted by writes and committed: all but those of a write whose
commit is due. -/
def committedOut (t : Trace) : WPhase → List Byte
  | .wrote k z => t.out.take (t.out.length-(k+z))
  | _ => t.out

/-- Counters and registers describe two byte sequences. -/
structure Summed (opts : OptionsS) (buf : BufS) (r w : List Byte) : Prop where
  /-- The bytes read are counted. -/
  allin : buf.allin=BitVec.ofNat 64 r.length
  /-- The bytes written are counted. -/
  allout : buf.allout=BitVec.ofNat 64 w.length
  /-- The reader's register. -/
  rcrc : opts.rcrc=true → buf.rcrc=crcCalc crcBeg r
  /-- The writer's register. -/
  wcrc : opts.wcrc=true → buf.wcrc=crcCalc crcBeg w

variable {opts : OptionsS} {buf : BufS} {t : Trace} {rp : RPhase} {wp : WPhase}

/-- The reading side has counted the committed bytes. -/
theorem readCounted_eq (h : StreamInv opts buf (flow t) rp wp) (hc : t.cin≤t.inp.length) :
    readCounted (flow t) rp=committedIn t rp := by
  cases rp with
  | got n =>
    have hn : (t.inp.drop t.cin).length=n := h.reader.1
    rw [List.length_drop] at hn
    change t.inp.take t.cin=t.inp.take (t.inp.length-n)
    rw [show t.inp.length-n=t.cin by omega]
  | _ => exact flow_all t

/-- The writing side has counted the committed bytes. -/
theorem writeCounted_eq (h : StreamInv opts buf (flow t) rp wp) :
    writeCounted (flow t) wp=committedOut t wp := by
  cases wp with
  | wrote k z =>
    obtain ⟨ho,hoff⟩ := h.writer
    have hout : t.out=(flow t).sent.take (flow t).cout++
      (((flow t).sent.drop (flow t).cout).take k++List.replicate z 0) := ho
    have hcount := h.count
    have hle := hoff.le
    have hk : (((flow t).sent.drop (flow t).cout).take k).length=k := by
      rw [List.length_take,List.length_drop]
      omega
    change (flow t).sent.take (flow t).cout=t.out.take (t.out.length-(k+z))
    rw [hout,List.length_append,List.length_append,hk,List.length_replicate,Nat.add_sub_cancel,
      List.take_left]
  | _ => rfl

/-- Counters and registers follow from the stream invariant. -/
theorem StreamInv.summed (h : StreamInv opts buf (flow t) rp wp) (hc : t.cin≤t.inp.length) :
    Summed opts buf (committedIn t rp) (committedOut t wp) := by
  rw [←readCounted_eq h hc,←writeCounted_eq h]
  exact {
    allin := h.rsum.1
    allout := h.wsum.1
    rcrc := fun hr => h.rsum.2 (h.dorcrc.trans hr)
    wcrc := fun hw => h.wsum.2 (h.dowcrc.trans hw)}

/-- Equal byte sequences are reported alike. -/
theorem Summed.report {r : List Byte} (h : Summed opts buf r r) (hr : opts.rcrc=true)
    (hw : opts.wcrc=true) : repCrc buf.rcrc buf.allin=repCrc buf.wcrc buf.allout := by
  rw [h.allin,h.allout,h.rcrc hr,h.wcrc hw]

/-- Counters and checksums describe exactly the committed bytes, padding
included, in every reachable state of both drivers: the registers are the
checksums of the bytes, and the counters are the numbers of bytes up to their
width. At the end of a complete transfer without padding both sides report the
same. -/
theorem checksums_exact (cfg : Config) (hb : cfg.opts.rline=false) :
    (∀ s,Reach (SingleTask.step cfg.opts) (SSys.init cfg.buf) s →
      Summed cfg.opts s.shm.buf (committedIn s.tr s.pc.rphase) (committedOut s.tr s.pc.wphase) ∧
      (s.pc=.ended → s.tr.out=s.tr.inp → cfg.opts.rcrc=true → cfg.opts.wcrc=true →
        repCrc s.shm.buf.rcrc s.shm.buf.allin=repCrc s.shm.buf.wcrc s.shm.buf.allout)) ∧
    ∀ s,Reach (TwoTask.step cfg.opts) (Sys.init cfg.buf) s →
      Summed cfg.opts s.shm.buf (committedIn s.tr (s.rpc.phase s.shm.mwait s.shm.xrsiz))
        (committedOut s.tr (s.wpc.phase s.shm.swait s.shm.xwsiz)) ∧
      (s.rpc=.ended → s.wpc=.ended → s.tr.out=s.tr.inp → cfg.opts.rcrc=true →
        cfg.opts.wcrc=true →
        repCrc s.shm.buf.rcrc s.shm.buf.allin=repCrc s.shm.buf.wcrc s.shm.buf.allout) := by
  refine ⟨fun s h => ?_,fun s h => ?_⟩
  · obtain ⟨hcin,hst⟩ := SingleTask.view_data cfg hb h
    have hsum := StreamInv.summed hst hcin
    refine ⟨hsum,fun hpc ho hr hw => ?_⟩
    rw [hpc] at hsum
    have hsame : Summed cfg.opts s.shm.buf s.tr.inp s.tr.inp := by
      have hs : Summed cfg.opts s.shm.buf s.tr.inp s.tr.out := hsum
      rwa [ho] at hs
    exact hsame.report hr hw
  · obtain ⟨hcin,hst⟩ := TwoTask.view_data cfg hb h
    have hsum := StreamInv.summed hst hcin
    refine ⟨hsum,fun hrpc hwpc ho hr hw => ?_⟩
    rw [hrpc,hwpc] at hsum
    have hsame : Summed cfg.opts s.shm.buf s.tr.inp s.tr.inp := by
      have hs : Summed cfg.opts s.shm.buf s.tr.inp s.tr.out := hsum
      rwa [ho] at hs
    exact hsame.report hr hw

/-- Two bytes read and committed, not yet published. -/
theorem checksums_exact_two :
    ∃ s,Reach (TwoTask.step (small false false).opts) (Sys.init (small false false).buf) s ∧
      s.rpc=.publish 2 ∧ s.shm.buf.rcrc=crcCalc crcBeg s.tr.inp := by
  obtain ⟨s,hr,hpc⟩ := exec_reach (by rfl :
    (exec (TwoTask.step (small false false).opts) (Sys.init (small false false).buf)
      ([.opened true,.tau,.tau,.tau,.data [1,2],.tau,.tau].map .reader)).map Sys.rpc=
      some (.publish 2))
  have hs := ((checksums_exact (small false false) rfl).2 s hr).1.rcrc rfl
  rw [hpc] at hs
  exact ⟨s,hr,hpc,hs⟩

/-- After 2^64 bytes the input counter is not the number of bytes read and
committed. -/
theorem checksums_counter_wraps : ¬∀ (cfg : Config) (s : SSys),cfg.opts.rline=false →
    Reach (SingleTask.step cfg.opts) (SSys.init cfg.buf) s →
    s.shm.buf.allin.toNat=(committedIn s.tr s.pc.rphase).length := by
  intro hall
  obtain ⟨s,hr,hpc,hinp,hcnt⟩ := counter_wraps
  have he := hall (small false false) s rfl hr.reach
  rw [hpc] at he
  have hlen : s.shm.buf.allin.toNat=s.tr.inp.length := he
  rw [hcnt,hinp] at hlen
  exact absurd hlen (by decide)

end Yancat.Checksums
