import Skyloft.Net.Frame
import Skyloft.Net.Handshake
import Skyloft.Net.ProcStep

/-!
# Duplicate acknowledgements

`tcp_rx_conn` counts duplicate acknowledgements in `rep_acks` and, at the third one, hands the
first segment of `txq` to `tcp_tx_fast_retransmit_finish`.  Further down, the update of the send
window clears the count.  It does not ask whether the window has changed: its test is on the
sequence number and the acknowledgement of the last update, and passes again for a segment that
repeats them.

* `Conn.dupVars`, `sysStep_dupVars` — what is counted with; only a segment changes it.
* `DupAck` — a duplicate acknowledgement, by the four conditions of the comment in the source.
* `tcpRxConn_dupAck` — what one of them does to the count, and what it sends again.
* `fast_retransmit_iff` — when the third of them has had the first segment sent again.
-/

namespace Skyloft

open Run

/-- What the detection of duplicate acknowledgements goes by. -/
structure DupVars where
  una : Seq
  wl1 : Seq
  wl2 : Seq
  repAcks : ℕ

def Conn.dupVars (c : Conn) : DupVars := ⟨c.snd.una, c.snd.wl1, c.snd.wl2, c.tmr.repAcks⟩

/-! ## Functions that leave them alone -/

/-- The egress path leaves them alone. -/
theorem dupVars_of_txFrame {c c' : Conn} (h : c'.txFrame = c.txFrame) :
    c'.dupVars = c.dupVars := by
  have hvars : c'.txFrame.dupVars = c.txFrame.dupVars := congrArg Conn.dupVars h
  exact hvars

@[simp] theorem dupVars_tcpTxAck (c : Conn) (io : Io) : (tcpTxAck c io).dupVars = c.dupVars :=
  dupVars_of_txFrame (txFrame_tcpTxAck c io)

@[simp] theorem dupVars_tcpConnAck (c : Conn) : (tcpConnAck c).dupVars = c.dupVars :=
  dupVars_of_txFrame (txFrame_tcpConnAck c)

@[simp] theorem dupVars_tcpTxFastRetransmitStart (c : Conn) (now : Usec) :
    (tcpTxFastRetransmitStart c now).1.dupVars = c.dupVars :=
  dupVars_of_txFrame (txFrame_tcpTxFastRetransmitStart c now)

@[simp] theorem dupVars_tcpConnShutdownRx (c : Conn) :
    (tcpConnShutdownRx c).dupVars = c.dupVars := by
  rw [tcpConnShutdownRx]
  split <;> rfl

theorem dupVars_tcpConnSetState {c c' : Conn} {new : TcpState} {now : Usec}
    (h : tcpConnSetState c new now = .ok c') : c'.dupVars = c.dupVars := by
  obtain ⟨wq, rfl⟩ := tcpConnSetState_eq h
  rfl

theorem dupVars_tcpConnPut {c c' : Conn} (h : tcpConnPut c = .ok c') :
    c'.dupVars = c.dupVars := by
  obtain ⟨n, rfl⟩ := tcpConnPut_eq h
  rfl

theorem dupVars_tcpConnFail {c c' : Conn} {err : ℤ} {now : Usec}
    (h : tcpConnFail c err now = .ok c') : c'.dupVars = c.dupVars := by
  obtain ⟨c₁, h₁, h⟩ := bind_eq_ok.mp h
  refine (dupVars_tcpConnPut h).trans ?_
  change c₁.dupVars = _
  exact (dupVars_tcpConnSetState h₁).trans rfl

@[simp] theorem dupVars_readTake (c : Conn) (p : Popped) : (readTake c p).dupVars = c.dupVars := by
  rw [readTake]
  cases p.fin
  · rfl
  · exact dupVars_tcpConnShutdownRx c

@[simp] theorem dupVars_readWndUpdate (c : Conn) (io : Io) :
    (readWndUpdate c io).dupVars = c.dupVars := by
  rw [readWndUpdate]
  split
  · exact dupVars_tcpTxAck c io
  · rfl

theorem dupVars_tcpReadCopy {c c' : Conn} {len : ℕ} {q : List Mbuf} {part : Bool}
    {bytes : List Byte} (h : tcpReadCopy c len q part = .ok (c', bytes)) :
    c'.dupVars = c.dupVars := by
  obtain ⟨rxq, rfl⟩ := tcpReadCopy_eq h
  rfl

theorem dupVars_tcpWriteFinish {c c' : Conn} {now : Usec} {re : Option Mbuf}
    (h : tcpWriteFinish c now = .ok (c', re)) : c'.dupVars = c.dupVars := by
  have hqueue : ∀ d : Conn, (writeFinishQueue d now).1.dupVars = d.dupVars := by
    intro d
    rw [writeFinishQueue]
    split
    · rfl
    split
    · dsimp only
      split
      · exact dupVars_tcpTxFastRetransmitStart _ now
      · rfl
    · rfl
  obtain ⟨-, d, _, _, u, hd, hu, rfl⟩ := tcpWriteFinish_eq h
  change u.dupVars = _
  rw [hu, hqueue]
  change d.dupVars = _
  rw [hd]
  exact dupVars_tcpConnAck _

theorem dupVars_tcpHandleTimeouts {c c' : Conn} {now clock : Usec} {ack re : Bool}
    (h : tcpHandleTimeouts c now clock = .ok (c', ack, re)) : c'.dupVars = c.dupVars := by
  rw [tcpHandleTimeouts] at h
  split at h
  · cases h
    rfl
  split at h
  · obtain ⟨c₁, h₁, h⟩ := bind_eq_ok.mp h
    obtain ⟨c₂, h₂, h⟩ := bind_eq_ok.mp h
    cases h
    exact (dupVars_tcpConnPut h₂).trans (dupVars_tcpConnSetState h₁)
  · cases h
    dsimp only
    split <;> split <;> rfl

theorem dupVars_tcpShutdownTxFin {c c' : Conn} {io : Io} {ret : ℤ} {warn : Bool}
    (h : tcpShutdownTxFin c io = .ok (c', ret, warn)) : c'.dupVars = c.dupVars := by
  have hctl := dupVars_of_txFrame (txFrame_tcpTxCtl c { fin := true, ack := true } io)
  rw [tcpShutdownTxFin] at h
  generalize tcpTxCtl c { fin := true, ack := true } io = r at h hctl
  dsimp only at h
  split at h
  · cases h
    exact hctl
  · obtain ⟨c₂, h₂, h⟩ := bind_eq_ok.mp h
    cases h
    refine Eq.trans ?_ hctl
    change c₂.dupVars = _
    rw [shutdownTxState] at h₂
    split_ifs at h₂
    · exact dupVars_tcpConnSetState h₂
    · exact dupVars_tcpConnSetState h₂
    · cases h₂
      rfl

/-! ## Steps -/

theorem dupVars_shutReturn {s s' : Sys} {c : Conn} {t : Tid} {k : ShutKind} {ret : ℤ} {io : Io}
    (h : shutReturn s c t k ret io = .ok s') : s'.conn.dupVars = c.dupVars := by
  cases k with
  | shutdown rd =>
      rw [shutReturn] at h
      split at h
      · cases h
        rfl
      · cases h
        cases rd
        · rfl
        · exact dupVars_tcpConnShutdownRx c
  | close =>
      rw [shutReturn] at h
      split at h
      · obtain ⟨c₁, h₁, h⟩ := bind_eq_ok.mp h
        obtain ⟨c₂, h₂, h⟩ := bind_eq_ok.mp h
        cases h
        refine (dupVars_tcpConnPut h₂).trans ?_
        rw [dupVars_tcpConnShutdownRx]
        exact dupVars_tcpConnFail h₁
      · obtain ⟨c₂, h₂, h⟩ := bind_eq_ok.mp h
        cases h
        exact (dupVars_tcpConnPut h₂).trans (dupVars_tcpConnShutdownRx c)

theorem dupVars_runShutWait {s s' : Sys} {t : Tid} {k : ShutKind} {io : Io}
    (h : runShutWait s t k io = .ok s') : s'.conn.dupVars = s.conn.dupVars := by
  rw [runShutWait] at h
  split at h
  · cases h
    rfl
  · obtain ⟨⟨c, ret, warn⟩, h₁, h⟩ := bind_eq_ok.mp h
    exact (dupVars_shutReturn h).trans (dupVars_tcpShutdownTxFin h₁)

theorem dupVars_runShutEnter {s s' : Sys} {t : Tid} {k : ShutKind} {io : Io}
    (h : runShutEnter s t k io = .ok s') : s'.conn.dupVars = s.conn.dupVars := by
  rw [runShutEnter] at h
  split at h
  · exact dupVars_shutReturn h
  · refine (dupVars_runShutWait h).trans ?_
    split <;> rfl

theorem dupVars_runReadWait (s : Sys) (t : Tid) (len : ℕ) (io : Io) :
    (runReadWait s t len io).conn.dupVars = s.conn.dupVars := by
  rw [runReadWait, tcpReadWait]
  split_ifs
  · rfl
  · rfl
  · dsimp only
    split
    all_goals
      rw [Sys.conn_move, dupVars_readWndUpdate]
      exact dupVars_readTake _ _

theorem dupVars_runAbortWait (s : Sys) (t : Tid) (io : Io) :
    (runAbortWait s t io).conn.dupVars = s.conn.dupVars := by
  rw [runAbortWait]
  split
  · rfl
  · exact dupVars_of_txFrame (txFrame_tcpTxRawRst _ _ _)

theorem dupVars_runProc {s s' : Sys} {t : Tid} {io : Io} (h : runProc s t io = .ok s') :
    s'.conn.dupVars = s.conn.dupVars := by
  cases runProc_step h with
  | readWait => exact dupVars_runReadWait s t _ io
  | readCopy _ hcopy => exact dupVars_tcpReadCopy hcopy
  | writeSend _ hsend => exact dupVars_of_txFrame (txFrame_tcpTxSend hsend)
  | writevSend _ _ hsend => exact dupVars_of_txFrame (txFrame_tcpTxSend hsend)
  | writeFinish _ hfin => exact dupVars_tcpWriteFinish hfin
  | shutRx =>
      rw [Sys.conn_move]
      split
      · exact dupVars_tcpConnShutdownRx _
      · rfl
  | shutEnter _ hrun => exact dupVars_runShutEnter hrun
  | shutWait _ hrun => exact dupVars_runShutWait hrun
  | abortEnter _ _ hfail => exact (dupVars_runAbortWait _ t io).trans (dupVars_tcpConnFail hfail)
  | abortWait => exact dupVars_runAbortWait s t io
  | retransmitClosed _ hput => exact dupVars_tcpConnPut hput
  | retransmitSend _ hsend => exact dupVars_of_txFrame (txFrame_tcpTxRetransmit hsend)
  | retransmitFinish _ hfin hput =>
      exact (dupVars_tcpConnPut hput).trans (dupVars_tcpWriteFinish hfin)
  | _ => rfl

/-- The event is the arrival of a frame. -/
def Event.isRx : Event → Bool
  | .rx _ _ _ => true
  | _ => false

/-- **Only a segment** changes what duplicates are counted with. -/
theorem sysStep_dupVars {s s' : Sys} {e : Event} (he : e.isRx = false)
    (h : sysStep s e = .ok s') : s'.conn.dupVars = s.conn.dupVars := by
  cases sysStep_cases h with
  | skip => rfl
  | call => rfl
  | run _ hrun => exact dupVars_runProc hrun
  | rx => cases he
  | ackOut => exact dupVars_tcpTxAck _ _
  | resend _ hfin => exact dupVars_of_txFrame (txFrame_tcpTxFastRetransmitFinish hfin)
  | timeouts hto | retransmit _ hto =>
      exact (dupVars_of_txFrame (txFrame_ackIf _ _ _)).trans (dupVars_tcpHandleTimeouts hto)
  | txDone => rfl
  | netErr hfail => exact dupVars_tcpConnFail hfail

theorem exec_dupVars {es : List Event} : ∀ {s s' : Sys}, (∀ e ∈ es, e.isRx = false) →
    exec sysStep s es = .ok s' → s'.conn.dupVars = s.conn.dupVars := by
  induction es with
  | nil => intro s s' _ h; cases h; rfl
  | cons e es ih =>
      intro s s' hes h
      obtain ⟨u, h₁, h₂⟩ := exec_cons_ok.mp h
      have hu := sysStep_dupVars (hes e List.mem_cons_self) h₁
      exact (ih (fun e' he' => hes e' (List.mem_cons_of_mem e he')) h₂).trans hu

/-! ## A duplicate acknowledgement -/

/-- `s` is a duplicate acknowledgement for an established connection that no writer owns, by the
four conditions of the comment in the source: it acknowledges what was acknowledged before, there
is something outstanding, it carries no data, and it announces the window that is known. -/
@[mk_iff]
structure DupAck (c : Conn) (s : Segment) : Prop where
  established : c.state = .established
  free : c.tx.exclusive = false
  acceptable : isAcceptable c.rcv s.len s.seq
  rst : s.flags.rst = false
  syn : s.flags.syn = false
  ack : s.flags.ack = true
  same : s.ack = c.snd.una
  outstanding : c.snd.una ≠ c.snd.nxt
  noData : s.len = 0
  sameWnd : sndWndOf s.win = c.snd.wnd

instance (c : Conn) (s : Segment) : Decidable (DupAck c s) :=
  decidable_of_iff _ (dupAck_iff c s).symm

namespace DupVars

/-- The update of the send window passes for a duplicate acknowledgement. -/
def Updates (v : DupVars) (s : Segment) (sndNxt : Seq) : Prop :=
  wrapsLte v.una sndNxt ∧
    (wrapsLt v.wl1 s.seq ∨ (v.wl1 = s.seq ∧ wrapsLte v.wl2 v.una))

instance (v : DupVars) (s : Segment) (sndNxt : Seq) : Decidable (v.Updates s sndNxt) :=
  inferInstanceAs (Decidable (_ ∧ _))

/-- The count behind the detection. -/
def counted (v : DupVars) : ℕ := if tcpFastRetransmitThresh ≤ v.repAcks + 1 then 0 else v.repAcks + 1

/-- What a duplicate acknowledgement makes of them. -/
def next (v : DupVars) (s : Segment) (sndNxt : Seq) : DupVars :=
  if v.Updates s sndNxt then { v with wl1 := s.seq, wl2 := v.una, repAcks := 0 }
  else { v with repAcks := v.counted }

end DupVars

/-- The first segment of `txq`, as `tcp_tx_fast_retransmit_start` reserves it. -/
def Conn.reserved (c : Conn) (now : Usec) : Option Mbuf :=
  c.tx.txq.head?.map fun m => { m with timestamp := now, ref := m.ref + 1 }

section

variable {c : Conn} {s : Segment}

theorem tcpTxFastRetransmitStart_snd (h : c.tx.exclusive = false) (now : Usec) :
    (tcpTxFastRetransmitStart c now).2 = c.reserved now := by
  rw [tcpTxFastRetransmitStart, if_neg (by simp [h]), Conn.reserved]
  cases c.tx.txq <;> rfl

theorem rxDupAck_of_dupAck (h : DupAck c s) (now : Usec) :
    (rxDupAck c s now).2 =
        (if tcpFastRetransmitThresh ≤ c.tmr.repAcks + 1 then c.reserved now else none) ∧
      (rxDupAck c s now).1.dupVars = { c.dupVars with repAcks := c.dupVars.counted } := by
  rw [rxDupAck, if_pos ⟨h.same, h.outstanding, h.noData⟩, DupVars.counted]
  change (if tcpFastRetransmitThresh ≤ c.tmr.repAcks + 1 then _ else _ : Conn × Option Mbuf).2 = _ ∧
    (if tcpFastRetransmitThresh ≤ c.tmr.repAcks + 1 then _ else _ : Conn × Option Mbuf).1.dupVars
      = { c.dupVars with
          repAcks := if tcpFastRetransmitThresh ≤ c.tmr.repAcks + 1 then 0 else c.tmr.repAcks + 1 }
  split
  · dsimp only
    rw [if_neg (by simp [h.free])]
    constructor
    · refine (tcpTxFastRetransmitStart_snd ?_ now).trans rfl
      exact h.free
    · have hstart := dupVars_tcpTxFastRetransmitStart
        { c with tmr := { c.tmr with repAcks := c.tmr.repAcks + 1 } } now
      exact congrArg (fun v : DupVars => { v with repAcks := 0 }) hstart
  · exact ⟨rfl, rfl⟩

/-- What the acknowledgement step makes of a duplicate: nothing, or the segment is dropped because
`snd_una` has passed the value of `snd_nxt` that was loaded for it. -/
theorem rxAck_of_same {sndNxt : Seq} (h : s.ack = c.snd.una) :
    rxAck c s sndNxt = if wrapsLte c.snd.una sndNxt then some (tcpConnAck c) else none := by
  have hrefl : wrapsLte c.snd.una c.snd.una := by simp [wrapsLte]
  rw [rxAck, h]
  by_cases hle : wrapsLte c.snd.una sndNxt
  · rw [if_pos ⟨hrefl, hle⟩, if_pos hle, if_neg (fun hne => hne rfl)]
  · rw [if_neg (fun hand => hle hand.2), if_pos (wrapsGt_of_not_wrapsLte hle), if_neg hle]

/-- The update of the send window behind the count. -/
theorem dupVars_rxSndWnd {v : DupVars} {sndNxt : Seq} (hc : c.dupVars = { v with repAcks := v.counted })
    (h : s.ack = v.una) (hle : wrapsLte v.una sndNxt) :
    (rxSndWnd c s).dupVars = v.next s sndNxt := by
  have hwl₁ : c.snd.wl1 = v.wl1 := congrArg DupVars.wl1 hc
  have hwl₂ : c.snd.wl2 = v.wl2 := congrArg DupVars.wl2 hc
  have huna : c.snd.una = v.una := congrArg DupVars.una hc
  rw [rxSndWnd, hwl₁, hwl₂, h]
  by_cases hup : wrapsLt v.wl1 s.seq ∨ (v.wl1 = s.seq ∧ wrapsLte v.wl2 v.una)
  · rw [if_pos hup, DupVars.next, if_pos ⟨hle, hup⟩]
    exact congrArg (fun u : Seq => DupVars.mk u s.seq v.una 0) huna
  · rw [if_neg hup, DupVars.next, if_neg (fun hand => hup hand.2)]
    exact hc

/-- Behind the acknowledgement step nothing happens to an established connection on a segment that
takes no sequence number. -/
theorem rxEstablished_tail (hst : c.state = .established) (hlen : s.len = 0)
    (hfin : s.flags.fin = false) (sndNxt : Seq) (now : Usec) :
    rxCloseStep c sndNxt now = .ok (c, false) ∧ rxTextStep c s now = .ok (c, true, false) ∧
      rxFinStep c s sndNxt now = .ok (c, false) := by
  refine ⟨?_, ?_, ?_⟩
  · rw [rxCloseStep, if_neg (by simp [hst]), if_neg (by simp [hst]), if_neg (by simp [hst])]
  · rw [rxTextStep, if_neg (by simp [hlen])]
  · rw [rxFinStep, if_pos hfin]

/-- **A duplicate acknowledgement**: which segment it has sent again, and what becomes of the
count. -/
theorem tcpRxConn_dupAck (h : DupAck c s) (hs : s.WellFormed) (sndNxt : Seq) (io : Io) :
    ∃ r, tcpRxConn c s sndNxt io = .ok r ∧
      r.retransmit =
        (if tcpFastRetransmitThresh ≤ c.tmr.repAcks + 1 then c.reserved io.now else none) ∧
      r.conn.dupVars = c.dupVars.next s sndNxt := by
  have hfin : s.flags.fin = false := by
    have hlen := hs.len_eq
    rw [h.noData] at hlen
    cases hf : s.flags.fin with
    | false => rfl
    | true => simp [hf] at hlen
  obtain ⟨hre, hvars⟩ := rxDupAck_of_dupAck h io.now
  have hrx := sameRx_rxDupAck c s io.now
  have hbody : tcpRxConnBody c s sndNxt io = rxEstablished c s sndNxt io := by
    rw [tcpRxConnBody, if_neg (by simp [h.established]), if_neg (by simp [h.established]),
      if_neg (not_not.mpr h.acceptable), if_neg (by simp [h.rst]), if_neg (by simp [h.syn]),
      if_neg (by simp [h.ack]), if_neg (by simp [h.established])]
  suffices hest : ∃ r, rxEstablished c s sndNxt io = .ok r ∧
      r.retransmit = (rxDupAck c s io.now).2 ∧ r.conn.dupVars = c.dupVars.next s sndNxt by
    obtain ⟨r, hr, hsent, hconn⟩ := hest
    refine ⟨_, bind_eq_ok.mpr ⟨r, hbody.trans hr, rfl⟩, hsent.trans hre, ?_⟩
    exact hconn
  rw [rxEstablished]
  generalize rxDupAck c s io.now = d at hvars hrx ⊢
  obtain ⟨c₁, re⟩ := d
  dsimp only at hvars hrx ⊢
  have huna : c₁.snd.una = c.snd.una := congrArg DupVars.una hvars
  rw [rxAck_of_same (h.same.trans huna.symm), huna]
  by_cases hle : wrapsLte c.snd.una sndNxt
  · rw [if_pos hle]
    have hack : (tcpConnAck c₁).dupVars = _ := (dupVars_tcpConnAck c₁).trans hvars
    have hstate : (tcpConnAck c₁).state = c.state := (hrx.tcpConnAck).state
    generalize tcpConnAck c₁ = c₂ at hack hstate ⊢
    have hnext : (rxSndWnd c₂ s).dupVars = _ := dupVars_rxSndWnd hack h.same hle
    have hstate₃ : (rxSndWnd c₂ s).state = c.state := (sameRx_rxSndWnd c₂ s).state.trans hstate
    dsimp only
    generalize rxSndWnd c₂ s = c₃ at hnext hstate₃ ⊢
    -- the wake-up of writers
    have hclear : ∀ (p : Prop) [Decidable p] (d : Conn),
        (if p then { d with tx := { d.tx with wq := [] } } else d).dupVars = d.dupVars ∧
          (if p then { d with tx := { d.tx with wq := [] } } else d).state = d.state := by
      intro p _ d
      split <;> exact ⟨rfl, rfl⟩
    obtain ⟨hv₄, hst₄⟩ := hclear (decide (isSndFull c₁) = true ∧ ¬ isSndFull c₃) c₃
    generalize (if decide (isSndFull c₁) = true ∧ ¬ isSndFull c₃ then
      { c₃ with tx := { c₃.tx with wq := [] } } else c₃) = c₄ at hv₄ hst₄ ⊢
    obtain ⟨hclose, htext, hfinstep⟩ := rxEstablished_tail
      (hst₄.trans (hstate₃.trans h.established)) h.noData hfin sndNxt io.now
    refine ⟨{ conn := c₄, doDrop := true, retransmit := re }, ?_, rfl, hv₄.trans hnext⟩
    rw [hclose]
    change (rxTextStep c₄ s io.now >>= _) = _
    rw [htext]
    change (rxFinStep c₄ s sndNxt io.now >>= _) = _
    rw [hfinstep]
    rfl
  · rw [if_neg hle]
    refine ⟨_, rfl, rfl, ?_⟩
    rw [DupVars.next, if_neg (fun hup => hle hup.1)]
    exact hvars

end

/-! ## Three of them -/

/-- A frame that arrives, with what its processing takes from outside. -/
structure Arrival where
  frame : Frame
  sndNxt : Seq
  io : Io

def Arrival.event (a : Arrival) : Event := .rx a.frame a.sndNxt a.io

/-- What the arrival of a duplicate acknowledgement does. -/
theorem rx_dupAck {s : Sys} {a : Arrival} {g : Segment} (hf : tcpRxParse a.frame = .ok (some g))
    (h : DupAck s.conn g) :
    ∃ u, sysStep s a.event = .ok u ∧
      u.owedResend = s.owedResend ++
        (if tcpFastRetransmitThresh ≤ s.conn.tmr.repAcks + 1 then
          s.conn.reserved a.io.now else none).toList ∧
      u.conn.dupVars = s.conn.dupVars.next g a.sndNxt := by
  obtain ⟨r, hr, hre, hvars⟩ := tcpRxConn_dupAck h (Segment.WellFormed.of_parse hf) a.sndNxt a.io
  have hrun : sysStep s a.event = .ok _ :=
    bind_eq_ok.mpr ⟨_, hf, bind_eq_ok.mpr ⟨r, hr, rfl⟩⟩
  exact ⟨_, hrun, by rw [← hre], hvars⟩

/-- What `tcp_tx_fast_retransmit_finish` makes of a reserved segment: unless it was acknowledged in
the meantime, it goes out again. -/
theorem wire_tcpTxFastRetransmitFinish {c c' : Conn} {m : Mbuf} {io : Io}
    (halloc : io.alloc 0 = true) (hnet : io.net 0 = 0) (hend : ¬ wrapsLte m.segEnd c.snd.una)
    (hseq : ¬ wrapsLt m.segSeq c.snd.una) (h : tcpTxFastRetransmitFinish c m io = .ok c') :
    c'.wire = c.wire ++
      [⟨m.segSeq, c.rcv.nxt, m.flags, c.rcv.wnd.setWidth 16, m.data⟩] := by
  obtain ⟨⟨c₁, m₁, ret⟩, h₁, h⟩ := bind_eq_ok.mp h
  cases h
  rw [tcpTxRetransmitOne, if_neg (by simp [halloc]), if_neg hend, stripAcked, if_neg hseq] at h₁
  cases h₁
  rw [hnet]
  rfl

/-- The next segment behind `a` arrives in the state `s'`. -/
def Follows (s : Sys) (a : Arrival) (s' : Sys) : Prop :=
  ∃ u es, sysStep s a.event = .ok u ∧ (∀ e ∈ es, e.isRx = false) ∧ exec sysStep u es = .ok s'

/-- `TCP_FAST_RETRANSMIT_THRESH` duplicate acknowledgements in a row, with the states in which they
arrive.  Between them the tasks and the timers go on. -/
structure ThreeDups where
  sys : Fin 3 → Sys
  arrival : Fin 3 → Arrival
  seg : Fin 3 → Segment
  parse : ∀ i, tcpRxParse (arrival i).frame = .ok (some (seg i))
  dup : ∀ i, DupAck (sys i).conn (seg i)
  next₁ : Follows (sys 0) (arrival 0) (sys 1)
  next₂ : Follows (sys 1) (arrival 1) (sys 2)

namespace ThreeDups

variable (x : ThreeDups)

/-- The segment at the head of `txq` is handed to `tcp_tx_fast_retransmit_finish`. -/
def Resends (i : Fin 3) : Prop :=
  ∃ m u, (x.sys i).conn.tx.txq.head? = some m ∧ sysStep (x.sys i) (x.arrival i).event = .ok u ∧
    u.owedResend = (x.sys i).owedResend ++
      [{ m with timestamp := (x.arrival i).io.now, ref := m.ref + 1 }]

/-- The first segment of `txq` is sent again for one of the three. -/
def Resent : Prop := ∃ i, x.Resends i

/-- The update of the send window passes for the `i`-th duplicate, by the values it had in front
of the first. -/
def Updates (i : Fin 3) : Prop :=
  (x.sys 0).conn.dupVars.Updates (x.seg i) (x.arrival i).sndNxt

instance (i : Fin 3) : Decidable (x.Updates i) := by
  unfold Updates
  infer_instance

/-- The count comes to the threshold, and at that segment there is something on `txq`. -/
def Counted : Prop :=
  (2 ≤ (x.sys 0).conn.tmr.repAcks ∧ (x.sys 0).conn.tx.txq ≠ []) ∨
  ((x.sys 0).conn.tmr.repAcks = 1 ∧ ¬ x.Updates 0 ∧ (x.sys 1).conn.tx.txq ≠ []) ∨
  ((x.sys 0).conn.tmr.repAcks = 0 ∧ ¬ x.Updates 0 ∧ ¬ x.Updates 1 ∧ (x.sys 2).conn.tx.txq ≠ [])

variable {x}

theorem resends_iff (i : Fin 3) :
    x.Resends i ↔ 2 ≤ (x.sys i).conn.dupVars.repAcks ∧ (x.sys i).conn.tx.txq ≠ [] := by
  obtain ⟨u, hstep, howed, -⟩ := rx_dupAck (x.parse i) (x.dup i)
  have hthresh : tcpFastRetransmitThresh ≤ (x.sys i).conn.tmr.repAcks + 1 ↔
      2 ≤ (x.sys i).conn.dupVars.repAcks := by
    change 3 ≤ (x.sys i).conn.tmr.repAcks + 1 ↔ 2 ≤ (x.sys i).conn.tmr.repAcks
    omega
  rw [← hthresh]
  constructor
  · rintro ⟨m, u', hhead, hstep', howed'⟩
    cases hstep.symm.trans hstep'
    rw [howed, List.append_cancel_left_eq] at howed'
    split at howed'
    · rename_i hle
      refine ⟨hle, fun hnil => ?_⟩
      rw [hnil] at hhead
      cases hhead
    · cases howed'
  · rintro ⟨hle, hne⟩
    obtain ⟨m, ms, hq⟩ := List.exists_cons_of_ne_nil hne
    refine ⟨m, u, by rw [hq]; rfl, hstep, ?_⟩
    rw [howed, if_pos hle, Conn.reserved, hq]
    rfl

theorem dupVars_of_follows {i j : Fin 3}
    (h : Follows (x.sys i) (x.arrival i) (x.sys j)) :
    (x.sys j).conn.dupVars = (x.sys i).conn.dupVars.next (x.seg i) (x.arrival i).sndNxt := by
  obtain ⟨u, hstep, -, hvars⟩ := rx_dupAck (x.parse i) (x.dup i)
  obtain ⟨u', es, hstep', hquiet, hexec⟩ := h
  cases hstep.symm.trans hstep'
  exact (exec_dupVars hquiet hexec).trans hvars

end ThreeDups

namespace DupVars

theorem repAcks_next (v : DupVars) (s : Segment) (sndNxt : Seq) :
    (v.next s sndNxt).repAcks =
      if v.Updates s sndNxt then 0 else if 2 ≤ v.repAcks then 0 else v.repAcks + 1 := by
  have hthresh : tcpFastRetransmitThresh ≤ v.repAcks + 1 ↔ 2 ≤ v.repAcks := by
    change 3 ≤ v.repAcks + 1 ↔ _
    omega
  rw [next, counted]
  simp only [hthresh]
  split <;> rfl

/-- While the update of the window does not pass, it is the same test that decides about the next
segment. -/
theorem updates_next {v : DupVars} {s s' : Segment} {n n' : Seq} (h : ¬ v.Updates s n) :
    (v.next s n).Updates s' n' ↔ v.Updates s' n' := by
  rw [next, if_neg h]
  rfl

end DupVars

/-- How far the count comes over the first two: to 1 for the second segment and to 2 for the third
one only if it starts there and is not cleared. -/
theorem ThreeDups.two_le_repAcks (x : ThreeDups) :
    (2 ≤ (x.sys 1).conn.tmr.repAcks ↔ (x.sys 0).conn.tmr.repAcks = 1 ∧ ¬ x.Updates 0) ∧
      (2 ≤ (x.sys 2).conn.tmr.repAcks ↔
        (x.sys 0).conn.tmr.repAcks = 0 ∧ ¬ x.Updates 0 ∧ ¬ x.Updates 1) := by
  have h₁ := ThreeDups.dupVars_of_follows x.next₁
  have h₂ := ThreeDups.dupVars_of_follows x.next₂
  have hcount₁ : (x.sys 1).conn.tmr.repAcks =
      if x.Updates 0 then 0
      else if 2 ≤ (x.sys 0).conn.tmr.repAcks then 0 else (x.sys 0).conn.tmr.repAcks + 1 :=
    (congrArg DupVars.repAcks h₁).trans (DupVars.repAcks_next _ _ _)
  have hcount₂ : (x.sys 2).conn.tmr.repAcks =
      if (x.sys 1).conn.dupVars.Updates (x.seg 1) (x.arrival 1).sndNxt then 0
      else if 2 ≤ (x.sys 1).conn.tmr.repAcks then 0 else (x.sys 1).conn.tmr.repAcks + 1 :=
    (congrArg DupVars.repAcks h₂).trans (DupVars.repAcks_next _ _ _)
  by_cases hup : x.Updates 0
  · rw [if_pos hup] at hcount₁
    rw [hcount₁] at hcount₂
    have hle : (x.sys 2).conn.tmr.repAcks ≤ 1 := by
      rw [hcount₂]
      split <;> simp
    simp only [hup, not_true_eq_false, false_and, and_false, iff_false]
    omega
  · -- the test for the second segment is asked with the values the first one left
    have hsecond : (x.sys 1).conn.dupVars.Updates (x.seg 1) (x.arrival 1).sndNxt ↔ x.Updates 1 := by
      rw [h₁]
      exact DupVars.updates_next hup
    simp only [if_neg hup] at hcount₁
    simp only [hsecond] at hcount₂
    by_cases hup' : x.Updates 1
    · simp only [hup', if_true] at hcount₂
      simp only [hup, hup', not_false_eq_true, not_true_eq_false, and_true, and_false, iff_false]
      split at hcount₁ <;> omega
    · simp only [if_neg hup'] at hcount₂
      simp only [hup, hup', not_false_eq_true, and_true]
      split at hcount₁ <;> split at hcount₂ <;> omega

/-- **Fast retransmission**: when three duplicate acknowledgements in a row have the first segment
of `txq` sent again. -/
theorem fast_retransmit_iff (x : ThreeDups) : x.Resent ↔ x.Counted := by
  have hor : x.Resent ↔ x.Resends 0 ∨ x.Resends 1 ∨ x.Resends 2 := by
    simp [ThreeDups.Resent, Fin.exists_fin_succ]
  obtain ⟨hsecond, hthird⟩ := x.two_le_repAcks
  rw [hor, ThreeDups.resends_iff, ThreeDups.resends_iff, ThreeDups.resends_iff, ThreeDups.Counted]
  change (2 ≤ (x.sys 0).conn.tmr.repAcks ∧ _) ∨ (2 ≤ (x.sys 1).conn.tmr.repAcks ∧ _) ∨
    (2 ≤ (x.sys 2).conn.tmr.repAcks ∧ _) ↔ _
  rw [hsecond, hthird, and_assoc, and_assoc, and_assoc]

/-! ## Identical acknowledgements -/

/-- The acknowledgement that opens a connection of `accepted`, once more, behind three bytes. -/
def repeatedAck : Arrival := ⟨windowFrame 1000, 4, Io.good 0⟩

def repeatedSeg : Segment :=
  { seq := 1, ack := 1, flags := { ack := true }, win := 1000, len := 0, payload := [] }

/-- The state in which it arrives for the `i`-th time. -/
def afterAcks (s : Sys) : ℕ → Sys
  | 0 => s
  | i + 1 => final sysStep (afterAcks s i) [repeatedAck.event]

theorem repeated_parse : tcpRxParse repeatedAck.frame = .ok (some repeatedSeg) := by decide

theorem follows_afterAcks {s : Sys} {i : ℕ} (h : DupAck (afterAcks s i).conn repeatedSeg) :
    Follows (afterAcks s i) repeatedAck (afterAcks s (i + 1)) := by
  obtain ⟨u, hstep, -⟩ := rx_dupAck repeated_parse h
  have hok : (sysStep (afterAcks s i) repeatedAck.event).isOk = true := by rw [hstep]; rfl
  refine ⟨_, [], step_final hok, ?_, rfl⟩
  intro e he
  cases he

/-- Three of them. -/
def acksFrom (s : Sys) (h : ∀ i : Fin 3, DupAck (afterAcks s i).conn repeatedSeg) : ThreeDups where
  sys i := afterAcks s i
  arrival _ := repeatedAck
  seg _ := repeatedSeg
  parse _ := repeated_parse
  dup := h
  next₁ := follows_afterAcks (h 0)
  next₂ := follows_afterAcks (h 1)

/-- Three bytes are written, and not acknowledged. -/
def unackedRun : List Event :=
  [.rx (windowFrame 1000) 1 (Io.good 0), .call 0 (.write [7, 7, 7]), .run 0 (Io.good 0),
    .run 0 (Io.good 0), .run 0 (Io.good 0)]

def unacked : Sys := final sysStep accepted unackedRun

theorem unacked_dup : ∀ i : Fin 3, DupAck (afterAcks unacked i).conn repeatedSeg := by
  decide

/-- **Three identical acknowledgements** have nothing sent again: each of them passes for an update
of the window. -/
theorem identical_acks_not_resent : accepted.Start ∧ exec sysStep accepted unackedRun = .ok unacked ∧
    unacked.conn.tx.txq ≠ [] ∧ ¬ (acksFrom unacked unacked_dup).Resent ∧
    (afterAcks unacked 3).conn.wire = unacked.conn.wire ∧ (afterAcks unacked 3).owedResend = [] := by
  refine ⟨accepted_start, exec_final (by decide), by decide, ?_,
    by decide, by decide⟩
  rintro ⟨i, hi⟩
  have hcount : ∀ i : Fin 3, (afterAcks unacked i).conn.tmr.repAcks = 0 := by decide
  have hle := ((ThreeDups.resends_iff i).mp hi).1
  have hzero : ((acksFrom unacked unacked_dup).sys i).conn.dupVars.repAcks = 0 := hcount i
  omega

/-- A byte further on has arrived before: its sequence number is that of the last update of the
window. -/
def reordered : Sys :=
  final sysStep unacked [.rx (peerFrame 11 { ack := true } [42]) 4 (Io.good 0)]

theorem reordered_dup : ∀ i : Fin 3, DupAck (afterAcks reordered i).conn repeatedSeg := by
  decide

/-- The three are counted when they are older than the last update of the window. -/
theorem reordered_acks_resent : (acksFrom reordered reordered_dup).Resent := by
  refine ⟨2, (ThreeDups.resends_iff 2).mpr ?_⟩
  have hcount : 2 ≤ (afterAcks reordered 2).conn.tmr.repAcks ∧
      (afterAcks reordered 2).conn.tx.txq.isEmpty = false := by decide
  refine ⟨hcount.1, fun hnil => ?_⟩
  have hne := hcount.2
  change (afterAcks reordered 2).conn.tx.txq = [] at hnil
  rw [hnil] at hne
  cases hne

end Skyloft
