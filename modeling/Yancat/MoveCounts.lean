import Yancat.StreamMoves

/-!
# Counts that hold in every reader mode

A reader in byte or line mode may fill the ring to the brim, and the fill then
forgets a whole turn. What survives are the counts: bytes are published after
they were read, what the writing side holds was published and not released, and
the fill is the unreleased number up to whole turns.
-/

namespace Yancat.ByteStream

open WordArithmetic Buffer Setup Shared

/-- Bytes read and not yet published. -/
@[simp] def RPhase.pending : RPhase → ℕ
  | .got n => n
  | .stored n => n
  | _ => 0

/-- The counts of a view. -/
structure CountInv (v : View) : Prop where
  /-- The geometry. -/
  ok : BufOk v.buf
  /-- Published bytes and pending ones were read. -/
  read : v.tr.cin+v.rp.pending≤v.tr.inp.length
  /-- Released bytes and held ones were published. -/
  held : v.tr.cout+v.wp.extent≤v.tr.cin
  /-- The fill is what was published and not released, up to whole turns. -/
  turns : (v.tr.cin-v.tr.cout)%v.buf.size=fill v.buf

variable {opts : OptionsS} {full : Bool} {v v' : View} {buf : BufS}

/-- Publishing advances the fill, up to whole turns. -/
theorem BufOk.fill_publish (h : BufOk buf) (n : ℕ) :
    fill (bufCommitRf buf n)=(fill buf+n)%buf.size := by
  have hd := h.did_lt
  rw [(h.commitRf n).fill_eq,h.commitRf_got n,h.fill_eq]
  change ringDist buf.size ((buf.got+n)%buf.size) buf.did=_
  unfold ringDist
  rw [Nat.mod_add_mod,Nat.mod_add_mod,show buf.got+n+(buf.size-buf.did)=
    buf.got+(buf.size-buf.did)+n by omega]

/-- Releasing takes from what was not released, up to whole turns. -/
theorem BufOk.fill_release (h : BufOk buf) {d n : ℕ} (hn : n≤d) (hd : d%buf.size=fill buf) :
    fill (bufCommitWf buf n)=(d-n)%buf.size := by
  have hs := h.size_pos
  rw [(h.commitWf n).fill_eq,h.commitWf_did n]
  change ringDist buf.size buf.got ((buf.did+n)%buf.size)=_
  refine ringDist_eq (Nat.mod_lt _ hs) (Nat.mod_lt _ hs) ?_
  rw [Nat.add_mod_mod,Nat.mod_add_mod,Nat.add_assoc,Nat.add_sub_cancel' hn,←Nat.add_mod_mod,hd,
    h.got_eq]

/-- A write grant was published and not released. -/
theorem CountInv.grantW_le (hi : CountInv v) (hz : (bufCanW v.buf).1≠0) :
    v.tr.cout+(bufCanW v.buf).1≤v.tr.cin := by
  have hg := (hi.ok.grantW hz).2.2
  have hm := Nat.mod_le (v.tr.cin-v.tr.cout) v.buf.size
  have ht := hi.turns
  have hpos := (hi.ok.grantW hz).1
  omega

/-- A change that moves no index keeps the counts. -/
theorem CountInv.quiet (hi : CountInv v) (hok : BufOk v'.buf) (hs : v'.buf.size=v.buf.size)
    (hf : fill v'.buf=fill v.buf) (hci : v'.tr.cin=v.tr.cin) (hco : v'.tr.cout=v.tr.cout)
    (hr : v.tr.cin+v'.rp.pending≤v'.tr.inp.length) (hw : v.tr.cout+v'.wp.extent≤v.tr.cin) :
    CountInv v' :=
  ⟨hok,by rw [hci]; exact hr,by rw [hci,hco]; exact hw,by rw [hci,hco,hs,hf]; exact hi.turns⟩

/-- Moving bytes about keeps the counts. -/
theorem CountInv.moved (hi : CountInv v) (hm : Moved v.buf v'.buf) (hci : v'.tr.cin=v.tr.cin)
    (hco : v'.tr.cout=v.tr.cout) (hr : v.tr.cin+v'.rp.pending≤v'.tr.inp.length)
    (hw : v.tr.cout+v'.wp.extent≤v.tr.cin) : CountInv v' := by
  have hok := hm.ok hi.ok
  obtain ⟨_,_,_,_,_,_,_,_,hb⟩ := hm
  exact hi.quiet hok (by rw [hb]) (by rw [hb]; rfl) hci hco hr hw

/-- Every move keeps the counts. -/
theorem CountInv.move (hi : CountInv v) (h : Move opts full v v') : CountInv v' := by
  have hok := hi.ok
  have hr := hi.read
  have hw := hi.held
  cases h with
  | @canR buf =>
    obtain ⟨st,hs⟩ := bufCanR_snd buf
    exact hi.quiet hok.canR (by rw [hs]) (by rw [hs]; rfl) rfl rfl hr hw
  | @grantR buf tr wp d hz =>
    obtain ⟨st,hs⟩ := bufCanR_snd buf
    exact hi.quiet hok.canR (by rw [hs]) (by rw [hs]; rfl) rfl rfl hr hw
  | dropR => exact hi.moved (.refl _) rfl rfl hr hw
  | abandonR => exact hi.moved (.refl _) rfl rfl hr hw
  | close => exact hi.moved (.refl _) rfl rfl hr hw
  | fetchR => exact hi.moved (bufFetchR_moved _ _) rfl rfl hr hw
  | stored hlt => exact hi.moved (storeAt_moved _ _ _) rfl rfl hr hw
  | @data buf tr wp d p siz bs hpos hle =>
    refine hi.moved (storeAt_moved _ _ _) rfl rfl ?_ hw
    simp only [RPhase.pending,List.length_append] at hr ⊢
    omega
  | commitR => exact hi.moved (bufCommitR_moved _ _) rfl rfl hr hw
  | @commitRf buf tr wp d n =>
    have ht := hi.turns
    dsimp only [RPhase.pending] at hok hr hw ht ⊢
    refine ⟨hok.commitRf n,by simp only [RPhase.pending]; omega,by dsimp only; omega,?_⟩
    change (tr.cin+n-tr.cout)%buf.size=_
    rw [BufOk.fill_publish hok n,←ht,Nat.mod_add_mod]
    congr 1
    omega
  | @canW buf =>
    obtain ⟨st,hs⟩ := bufCanW_snd buf
    exact hi.quiet hok.canW (by rw [hs]) (by rw [hs]; rfl) rfl rfl hr hw
  | @grantW buf tr rp hz =>
    obtain ⟨st,hs⟩ := bufCanW_snd buf
    exact hi.quiet hok.canW (by rw [hs]) (by rw [hs]; rfl) rfl rfl hr (hi.grantW_le hz)
  | @grantFinal buf tr hz =>
    obtain ⟨st,hs⟩ := bufCanW_snd buf
    exact hi.quiet hok.canW (by rw [hs]) (by rw [hs]; rfl) rfl rfl hr (hi.grantW_le hz)
  | dropW => exact hi.moved (.refl _) rfl rfl hr ((Nat.le_add_right _ _).trans hw)
  | abandonW hf => exact hi.moved (.refl _) rfl rfl hr ((Nat.le_add_right _ _).trans hw)
  | fetchW => exact hi.moved (bufFetchW_moved _ _) rfl rfl hr hw
  | fetchFinal => exact hi.moved (epiFetch_moved _ _ _) rfl rfl hr hw
  | @wrote buf tr rp d p siz pad k z hk hz hl hf =>
    exact hi.moved (.refl _) rfl rfl hr ((Nat.add_le_add_left hk _).trans hw)
  | commitW => exact hi.moved (bufCommitW_moved _ _) rfl rfl hr hw
  | @commitWf buf tr rp d k z =>
    have ht := hi.turns
    dsimp only [WPhase.extent] at hok hr hw ht ⊢
    refine ⟨hok.commitWf k,hr,by simp only [WPhase.extent]; omega,?_⟩
    change (tr.cin-(tr.cout+k))%buf.size=_
    rw [BufOk.fill_release hok (by omega) ht,Nat.sub_add_eq]
  | leave => exact hi.moved (.refl _) rfl rfl hr hw
  | setlinew => exact hi.quiet hok.setlinew rfl rfl rfl rfl hr hw
  | note => exact hi.moved (.refl _) rfl rfl hr hw

/-- The counts hold after any moves, in every reader mode. -/
theorem CountInv.moves (cfg : Config) (h : Moves opts full (.init cfg.buf) v) : CountInv v := by
  refine h.invariant ⟨cfg.ok,le_refl 0,le_refl 0,?_⟩ fun _ _ hi hm => hi.move hm
  rw [show (View.init cfg.buf).buf=cfg.buf from rfl,cfg.fill_zero]
  exact Nat.zero_mod _

end Yancat.ByteStream
