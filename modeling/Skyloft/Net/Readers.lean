import Skyloft.Net.ProcStep
import Skyloft.Net.RxStep

/-!
# The receive side of one step

What a step of the system can do to the receive side and to the tasks that read:
`RxMove` has one constructor for each, and `sysStep_rxMove` says that every step
from a connection that meets `Conn.RxOk` is one of them.  The invariants of the
receive side are proved by going through these constructors.

## Main definitions

* `Proc.reads` — the program points inside `tcp_read`.
* `RxSide.shut`, `RxSide.popped` — the receive side after `tcp_conn_shutdown_rx`
  and after the pop loop of `tcp_read_wait`.
* `RxMove`, `sysStep_rxMove` — the moves of a step.
-/

namespace Skyloft

open Run

/-- The program points inside `tcp_read`. -/
def Proc.reads : Proc → Bool
  | .readWait _ | .readCopy _ _ _ | .readFinish _ => true
  | _ => false

/-- The program points inside `tcp_shutdown` and `tcp_close`. -/
def Proc.shuts : Proc → Bool
  | .shutEnter _ _ | .closeEnter | .shutWait _ => true
  | _ => false

theorem Proc.reads_of_shuts {p : Proc} (h : p.shuts) : p.reads = false := by
  cases p <;> first | rfl | cases h

/-- The state changes made outside `tcp_rx_conn`. -/
inductive AppMove : TcpState → TcpState → Prop
  | shut {st st' : TcpState} : ShutMove st st' → AppMove st st'
  | expire : AppMove .timeWait .closed

/-- The tasks inside `tcp_read` have not moved. -/
def SameReaders (s s' : Sys) : Prop :=
  ∀ t, s'.procs t = s.procs t ∨ ((s.procs t).reads = false ∧ (s'.procs t).reads = false)

/-- The receive side after `tcp_conn_shutdown_rx`. -/
def RxSide.shut (x : RxSide) : RxSide :=
  if x.rx.closed then x else { x with rx := { x.rx with closed := true, wq := [] } }

/-- The receive side after the pop loop of `tcp_read_wait` ended in `p`. -/
def RxSide.popped (x : RxSide) (p : Popped) : RxSide :=
  let wnd := x.rcv.wnd + BitVec.ofNat 32 p.readlen
  { rcv := { x.rcv with wnd := wnd }
    rx :=
      { x.rx with
        closed := x.rx.closed || p.fin
        wq := if p.fin then [] else x.rx.wq
        exclusive := x.rx.exclusive || p.part
        rxq := p.rest }
    wndFull := x.wndFull && !decide (tcpWin / 4 ≤ wnd.toNat)
    err := x.err }

/-- What a step can do to the receive side. -/
inductive RxMove (s : Sys) : Event → Sys → Prop
  /-- Nothing. -/
  | inert {e : Event} {s' : Sys} : s'.conn.rxSide = s.conn.rxSide →
      AppMove s.conn.state s'.conn.state → SameReaders s s' → RxMove s e s'
  /-- The application shuts the receive side down. -/
  | shut {t : Tid} {io : Io} {s' : Sys} : (s.procs t).shuts →
      s'.conn.rxSide = s.conn.rxSide.shut → AppMove s.conn.state s'.conn.state →
      SameReaders s s' → RxMove s (.run t io) s'
  /-- The connection fails. -/
  | fail {e : Event} {s' : Sys} {err : ℤ} : s'.conn.rxSide = s.conn.rxSide.failed err →
      s'.conn.state = .closed → SameReaders s s' → (err = 0 → ∃ io, e = .netErr 0 io) →
      RxMove s e s'
  /-- A segment is processed. -/
  | segment {f : Frame} {sndNxt : Seq} {io : Io} {seg : Segment} {s' : Sys} :
      tcpRxParse f = .ok (some seg) → seg.WellFormed → RxEffect seg s.conn s'.conn →
      s'.procs = s.procs → RxMove s (.rx f sndNxt io) s'
  /-- A read starts. -/
  | start {t : Tid} {len : ℕ} : s.free t →
      RxMove s (.call t (.read len)) (s.move s.conn t (.readWait len))
  /-- A reader goes to sleep. -/
  | sleep {t : Tid} {io : Io} {len : ℕ} : s.asleep t = false → s.procs t = .readWait len →
      s.conn.rx.closed = false → s.conn.rx.exclusive ∨ s.conn.rx.rxq = [] →
      RxMove s (.run t io)
        { s with conn := { s.conn with rx := { s.conn.rx with wq := s.conn.rx.wq ++ [t] } } }
  /-- A reader finds the receive side closed. -/
  | closed {t : Tid} {io : Io} {len : ℕ} : s.asleep t = false → s.procs t = .readWait len →
      s.conn.rx.closed → RxMove s (.run t io) (s.move s.conn t (.done (-s.conn.err) []))
  /-- A reader pops what it will read. -/
  | pop {t : Tid} {io : Io} {len : ℕ} {p : Popped} {c' : Conn} : s.asleep t = false →
      s.procs t = .readWait len → s.conn.rx.closed = false → s.conn.rx.exclusive = false →
      s.conn.rx.rxq ≠ [] → p = readPop len 0 s.conn.rx.rxq →
      c'.rxSide = s.conn.rxSide.popped p → c'.state = s.conn.state →
      RxMove s (.run t io)
        (s.move c' t (if p.readlen = 0 then .done 0 [] else .readCopy len p.q p.part))
  /-- A reader copies buffers it owns. -/
  | copy {t : Tid} {io : Io} {len : ℕ} {q : List Mbuf} {bytes : List Byte} :
      s.asleep t = false → s.procs t = .readCopy len q false →
      bytes = (q.map Mbuf.data).flatten →
      RxMove s (.run t io) (s.move s.conn t (.done bytes.length bytes))
  /-- A reader copies from the buffer at the head of `rxq` as well. -/
  | copyPart {t : Tid} {io : Io} {len : ℕ} {q : List Mbuf} {bytes : List Byte} {c' : Conn} :
      s.asleep t = false → s.procs t = .readCopy len q true →
      tcpReadCopy s.conn len q true = .ok (c', bytes) →
      RxMove s (.run t io) (s.move c' t (.readFinish bytes))
  /-- A reader gives the receive side free. -/
  | finish {t : Tid} {io : Io} {bytes : List Byte} : s.asleep t = false →
      s.procs t = .readFinish bytes →
      RxMove s (.run t io) (s.move (tcpReadFinish s.conn) t (.done bytes.length bytes))

/-! ## Inversion -/

theorem rxSide_tcpConnShutdownRx (c : Conn) : (tcpConnShutdownRx c).rxSide = c.rxSide.shut := by
  cases h : c.rx.closed <;> simp [tcpConnShutdownRx, RxSide.shut, Conn.rxSide, h]

/-- Shutting the receive side down leaves the queues and the receive variables. -/
theorem RxSide.shut_keeps {c c' : Conn} (h : c'.rxSide = c.rxSide.shut) :
    c'.rcv = c.rcv ∧ c'.rx.rxq = c.rx.rxq ∧ c'.rx.rxqOoo = c.rx.rxqOoo ∧ c'.err = c.err ∧
      c'.rx.exclusive = c.rx.exclusive := by
  have hrcv : c'.rcv = c.rxSide.shut.rcv := congrArg RxSide.rcv h
  have hrx : c'.rx = c.rxSide.shut.rx := congrArg RxSide.rx h
  have herr : c'.err = c.rxSide.shut.err := congrArg RxSide.err h
  rw [hrcv, hrx, herr, RxSide.shut]
  split <;> exact ⟨rfl, rfl, rfl, rfl, rfl⟩

theorem RxSide.shut_failed (x : RxSide) (err : ℤ) : (x.failed err).shut = x.failed err := rfl

/-- The receive side that the pop loop and the window update leave. -/
theorem readWndUpdate_readTake {c : Conn} (p : Popped) (io : Io) (hcl : c.rx.closed = false) :
    (readWndUpdate (readTake c p) io).rxSide = c.rxSide.popped p ∧
      (readWndUpdate (readTake c p) io).state = c.state := by
  have htake : (readTake c p).rcv.wnd = c.rcv.wnd + BitVec.ofNat 32 p.readlen ∧
      (readTake c p).tmr = c.tmr ∧ (readTake c p).state = c.state ∧ (readTake c p).err = c.err := by
    rw [readTake, tcpConnShutdownRx]
    cases p.fin <;> simp [hcl]
  have hside : ∀ b : Bool, (⟨(readTake c p).rcv, (readTake c p).rx, b, c.err⟩ : RxSide) =
      { c.rxSide.popped p with wndFull := b } := by
    intro b
    rw [readTake, tcpConnShutdownRx, RxSide.popped]
    cases p.fin <;> simp [hcl, Conn.rxSide]
  have hack := (SameRx.refl (readTake c p)).tcpTxAck io
  rw [readWndUpdate, htake.1, htake.2.1]
  split
  · rename_i h
    refine ⟨?_, hack.state.trans htake.2.2.1⟩
    have herr : (tcpTxAck (readTake c p) io).err = c.err :=
      (congrArg RxSide.err hack.side).trans htake.2.2.2
    change (⟨(tcpTxAck (readTake c p) io).rcv, (tcpTxAck (readTake c p) io).rx, false,
      (tcpTxAck (readTake c p) io).err⟩ : RxSide) = _
    have hfull : (c.rxSide.popped p).wndFull = false := by
      change (c.tmr.rcvWndFull &&
        !decide (tcpWin / 4 ≤ (c.rcv.wnd + BitVec.ofNat 32 p.readlen).toNat)) = false
      rw [decide_eq_true h.2, Bool.not_true, Bool.and_false]
    rw [hack.rcv, hack.rx, herr, hside, ← hfull]
  · rename_i h
    refine ⟨?_, htake.2.2.1⟩
    change (⟨_, _, (readTake c p).tmr.rcvWndFull, (readTake c p).err⟩ : RxSide) = _
    rw [htake.2.2.2, hside, htake.2.1]
    have hfull : c.tmr.rcvWndFull = (c.rxSide.popped p).wndFull := by
      cases hf : c.tmr.rcvWndFull <;> simp_all [RxSide.popped, Conn.rxSide]
    rw [hfull]

namespace SameReaders

theorem refl (s : Sys) : SameReaders s s := fun _ => .inl rfl

/-- A task outside `tcp_read` moves to a program point outside `tcp_read`. -/
theorem of_update {s s' : Sys} {t : Tid} {p : Proc} (hs : s'.procs = Function.update s.procs t p)
    (h : (s.procs t).reads = false) (hp : p.reads = false) : SameReaders s s' := by
  intro u
  by_cases hu : u = t
  · subst hu
    exact .inr ⟨h, by simpa [hs] using hp⟩
  · exact .inl (by rw [hs, Function.update_of_ne hu])

theorem move {s s' : Sys} {c : Conn} {t : Tid} {p : Proc} (hs : s'.procs = s.procs)
    (h : (s.procs t).reads = false) (hp : p.reads = false) : SameReaders s (s'.move c t p) :=
  of_update (by rw [← hs]; rfl) h hp

end SameReaders

theorem runReadWait_rxMove {s : Sys} {t : Tid} {len : ℕ} (io : Io) (ha : s.asleep t = false)
    (hp : s.procs t = .readWait len) : RxMove s (.run t io) (runReadWait s t len io) := by
  rw [runReadWait, tcpReadWait]
  split_ifs with h₁ h₂
  · exact .sleep ha hp h₁.1 h₁.2
  · exact .closed ha hp h₂
  · rw [Bool.not_eq_true] at h₂
    simp only [h₂, true_and, not_or, Bool.not_eq_true] at h₁
    dsimp only
    obtain ⟨hside, hst⟩ := readWndUpdate_readTake (readPop len 0 s.conn.rx.rxq) io h₂
    have hmove := @RxMove.pop s _ io _ _ _ ha hp h₂ h₁.1 h₁.2 rfl hside hst
    split
    · rename_i hn
      rwa [if_pos hn] at hmove
    · rename_i hn
      rwa [if_neg hn] at hmove

theorem readCopy_rxMove {s : Sys} {t : Tid} {len : ℕ} {q : List Mbuf} {part : Bool} {c : Conn}
    {bytes : List Byte} (io : Io) (ha : s.asleep t = false) (hp : s.procs t = .readCopy len q part)
    (h : tcpReadCopy s.conn len q part = .ok (c, bytes)) :
    RxMove s (.run t io)
      (s.move c t (if part then .readFinish bytes else .done bytes.length bytes)) := by
  cases part with
  | false =>
      rw [tcpReadCopy, if_neg (by simp)] at h
      cases h
      exact .copy ha hp rfl
  | true => exact .copyPart ha hp h

theorem inert_of_sameRx {s : Sys} {e : Event} {s' : Sys} (h : SameRx s.conn s'.conn)
    (hr : SameReaders s s') : RxMove s e s' :=
  .inert h.side (h.state ▸ .shut .same) hr

theorem shutReturn_rxMove {s s₁ s' : Sys} {c : Conn} {t : Tid} {k : ShutKind} {ret : ℤ}
    {io : Io} (hs : s₁.procs = s.procs) (hside : c.rxSide = s.conn.rxSide)
    (hst : ShutMove s.conn.state c.state) (hp : (s.procs t).shuts)
    (h : shutReturn s₁ c t k ret io = .ok s') : RxMove s (.run t io) s' := by
  have hreaders : ∀ d r, SameReaders s (s₁.move d t (.done r [])) :=
    fun d r => SameReaders.move hs (Proc.reads_of_shuts hp) rfl
  cases k with
  | shutdown rd =>
      rw [shutReturn] at h
      split at h
      · cases h
        exact .inert hside (.shut hst) (hreaders _ _)
      · cases h
        cases rd with
        | false => exact .inert hside (.shut hst) (hreaders _ _)
        | true =>
            refine .shut hp ?_ (.shut ?_) (hreaders _ _)
            · exact (rxSide_tcpConnShutdownRx c).trans (by rw [hside])
            · change ShutMove _ (tcpConnShutdownRx c).state
              rw [tcpConnShutdownRx]
              split <;> exact hst
  | close =>
      rw [shutReturn] at h
      have hstate : (tcpConnShutdownRx c).state = c.state := by
        rw [tcpConnShutdownRx]
        split <;> rfl
      split at h
      · rename_i hret
        obtain ⟨c₁, h₁, h⟩ := bind_eq_ok.mp h
        obtain ⟨c₂, h₂, h⟩ := bind_eq_ok.mp h
        cases h
        obtain ⟨hst₁, hside₁⟩ := tcpConnFail_spec h₁
        have hput := sameRx_tcpConnPut h₂
        refine @RxMove.fail _ _ _ (-ret) ?_ ?_ (hreaders _ _) ?_
        · change c₂.rxSide = _
          rw [hput.side, rxSide_tcpConnShutdownRx, hside₁, RxSide.shut_failed, hside]
        · change c₂.state = _
          rw [hput.state, tcpConnShutdownRx]
          split <;> exact hst₁
        · exact fun h0 => absurd (Int.neg_eq_zero.mp h0) hret
      · obtain ⟨c₂, h₂, h⟩ := bind_eq_ok.mp h
        cases h
        have hput := sameRx_tcpConnPut h₂
        refine .shut hp ?_ (.shut ?_) (hreaders _ _)
        · change c₂.rxSide = _
          rw [hput.side, rxSide_tcpConnShutdownRx, hside]
        · change ShutMove _ c₂.state
          rw [hput.state, hstate]
          exact hst

theorem runShutWait_rxMove {s s₁ s' : Sys} {t : Tid} {k : ShutKind} {io : Io}
    (hs : s₁.procs = s.procs) (hc : s₁.conn = s.conn) (hp : (s.procs t).shuts)
    (h : runShutWait s₁ t k io = .ok s') : RxMove s (.run t io) s' := by
  rw [runShutWait, hc] at h
  split at h
  · cases h
    exact inert_of_sameRx ⟨rfl, rfl⟩ (SameReaders.move hs (Proc.reads_of_shuts hp) rfl)
  · obtain ⟨⟨c, ret, warn⟩, h₁, h⟩ := bind_eq_ok.mp h
    obtain ⟨hside, hst⟩ := tcpShutdownTxFin_spec h₁
    refine shutReturn_rxMove ?_ hside hst hp h
    split <;> exact hs

theorem runShutEnter_rxMove {s s' : Sys} {t : Tid} {k : ShutKind} {io : Io}
    (hp : (s.procs t).shuts) (h : runShutEnter s t k io = .ok s') : RxMove s (.run t io) s' := by
  rw [runShutEnter] at h
  split at h
  · exact shutReturn_rxMove rfl rfl .same hp h
  · refine runShutWait_rxMove ?_ ?_ hp h
    · split <;> rfl
    · split <;> rfl

theorem runAbortWait_sameRx (s : Sys) (t : Tid) (io : Io) :
    SameRx s.conn (runAbortWait s t io).conn ∧ (runAbortWait s t io).procs =
      Function.update s.procs t ((runAbortWait s t io).procs t) ∧
      ((runAbortWait s t io).procs t).reads = false := by
  rw [runAbortWait]
  split
  · exact ⟨⟨rfl, rfl⟩, by simp [Sys.move], by simp [Sys.move, Proc.reads]⟩
  · exact ⟨(SameRx.refl _).tcpTxRawRst _ _, by simp [Sys.move], by simp [Sys.move, Proc.reads]⟩

theorem runProc_rxMove {s s' : Sys} {t : Tid} {io : Io} (ha : s.asleep t = false)
    (h : runProc s t io = .ok s') : RxMove s (.run t io) s' := by
  -- a task outside `tcp_read` that leaves the receive side alone
  have hmove : ∀ {c : Conn} {p q : Proc}, s.procs t = q → q.reads = false → SameRx s.conn c →
      p.reads = false → RxMove s (.run t io) (s.move c t p) := by
    intro c p q hq hr hc hp
    exact inert_of_sameRx hc (SameReaders.move rfl (hq ▸ hr) hp)
  cases runProc_step h with
  | idle => exact inert_of_sameRx (SameRx.refl _) (SameReaders.refl _)
  | sleep => exact inert_of_sameRx ⟨rfl, rfl⟩ (SameReaders.refl _)
  | dialFail hp => exact hmove hp rfl ⟨rfl, rfl⟩ rfl
  | dialled hp => exact hmove hp rfl ⟨rfl, rfl⟩ rfl
  | readWait hp => exact runReadWait_rxMove io ha hp
  | readCopy hp hcopy => exact readCopy_rxMove io ha hp hcopy
  | readFinish hp => exact .finish ha hp
  | writeClosed hp hwait =>
      rcases hwait with ⟨_, rfl⟩ | ⟨_, rfl⟩ <;> exact hmove hp rfl (SameRx.refl _) rfl
  | writeLock _ _ hp =>
      rcases hp with ⟨_, hp, rfl⟩ | ⟨_, hp, rfl⟩ <;> exact hmove hp rfl ⟨rfl, rfl⟩ rfl
  | writeSend hp hsend => exact hmove hp rfl (sameRx_tcpTxSend hsend) rfl
  | writevEnd hp => exact hmove hp rfl (SameRx.refl _) rfl
  | writevSend hp _ hsend hnext =>
      rcases hnext with ⟨_, rfl⟩ | ⟨_, rfl⟩ <;> exact hmove hp rfl (sameRx_tcpTxSend hsend) rfl
  | @writeFinish _ c _ hp hfin =>
      refine inert_of_sameRx (sameRx_tcpWriteFinish hfin) ?_
      exact @SameReaders.move s s c _ (.done _ []) rfl (by rw [hp]; rfl) rfl
  | @shutRx rd hp =>
      cases rd with
      | false => exact hmove hp rfl (SameRx.refl _) rfl
      | true =>
          refine .shut (by rw [hp]; rfl) (rxSide_tcpConnShutdownRx _) (.shut ?_)
            (SameReaders.move rfl (by rw [hp]; rfl) rfl)
          change ShutMove _ (tcpConnShutdownRx s.conn).state
          rw [tcpConnShutdownRx]
          split <;> exact .same
  | shutEnter hp hrun =>
      refine runShutEnter_rxMove ?_ hrun
      rcases hp with ⟨_, hp, -⟩ | ⟨hp, -⟩ <;> rw [hp] <;> rfl
  | shutWait hp hrun => exact runShutWait_rxMove rfl rfl (by rw [hp]; rfl) hrun
  | abortClosed hp => exact hmove hp rfl (SameRx.refl _) rfl
  | @abortEnter c hp _ hfail =>
      obtain ⟨hst, hside⟩ := tcpConnFail_spec hfail
      obtain ⟨hsame, hprocs, hreads⟩ := runAbortWait_sameRx { s with conn := c } t io
      refine .fail (hsame.side.trans hside) (hsame.state.trans hst) ?_
        fun h0 => absurd h0 (by decide)
      exact SameReaders.of_update hprocs (by rw [hp]; rfl) hreads
  | abortWait hp =>
      obtain ⟨hsame, hprocs, hreads⟩ := runAbortWait_sameRx s t io
      exact inert_of_sameRx hsame (SameReaders.of_update hprocs (by rw [hp]; rfl) hreads)
  | retransmitLock hp => exact hmove hp rfl ⟨rfl, rfl⟩ rfl
  | retransmitClosed hp hput => exact hmove hp rfl (sameRx_tcpConnPut hput) rfl
  | retransmitSend hp hsend => exact hmove hp rfl (sameRx_tcpTxRetransmit hsend) rfl
  | @retransmitFinish _ c' _ hp hfin hput =>
      refine inert_of_sameRx ((sameRx_tcpWriteFinish hfin).trans (sameRx_tcpConnPut hput)) ?_
      exact @SameReaders.move s s c' _ (.done 0 []) rfl (by rw [hp]; rfl) rfl

/-- A frame on a connection that meets `RxOk` never faults. -/
theorem runRx_spec {s : Sys} (hok : s.conn.RxOk) (f : Frame) (sndNxt : Seq) (io : Io) :
    ∃ s', runRx s f sndNxt io = .ok s' ∧ RxMove s (.rx f sndNxt io) s' := by
  obtain ⟨o, ho, hwf⟩ := tcpRxParse_spec f
  cases o with
  | none =>
      exact ⟨s, bind_eq_ok.mpr ⟨none, ho, rfl⟩,
        inert_of_sameRx (SameRx.refl _) (SameReaders.refl _)⟩
  | some seg =>
      have hseg := (hwf seg rfl).1
      obtain ⟨r, hr, heff⟩ := tcpRxConn_spec sndNxt io hseg hok
      exact ⟨_, bind_eq_ok.mpr ⟨some seg, ho, bind_eq_ok.mpr ⟨r, hr, rfl⟩⟩,
        .segment ho hseg heff rfl⟩

/-- **Every step is one of the moves.** -/
theorem sysStep_rxMove {s s' : Sys} {e : Event} (hok : s.conn.RxOk) (h : sysStep s e = .ok s') :
    RxMove s e s' := by
  have hidle : ∀ {t : Tid}, s.free t → (s.procs t).reads = false := by
    intro t hfree
    rw [Sys.free] at hfree
    split at hfree <;> simp_all [Proc.reads]
  -- the timers, with the ACK that the worker sends after them
  have htimers : ∀ {c : Conn} {now : Usec} {io : Io} {doAck re : Bool} {e : Event} {s₁ : Sys},
      tcpHandleTimeouts s.conn now io.now = .ok (c, doAck, re) →
      s₁.conn = (if doAck then tcpTxAck c io else c) → SameReaders s s₁ → RxMove s e s₁ := by
    intro c now io doAck re e s₁ hto hc hr
    obtain ⟨hside, hst⟩ := tcpHandleTimeouts_spec hto
    have hmv : AppMove s.conn.state c.state := by
      rcases hst with hst | ⟨h₁, h₂⟩
      · rw [hst]; exact .shut .same
      · rw [h₁, h₂]; exact .expire
    have hack : SameRx c s₁.conn :=
      (SameRx.refl c).of_txFrame (hc ▸ txFrame_ackIf c doAck io)
    exact .inert (hack.side.trans hside) (hack.state ▸ hmv) hr
  cases sysStep_cases h with
  | skip => exact inert_of_sameRx (SameRx.refl _) (SameReaders.refl _)
  | @call t c hfree =>
      cases c with
      | read len => exact .start hfree
      | _ => exact inert_of_sameRx (SameRx.refl _) (SameReaders.move rfl (hidle hfree) rfl)
  | run ha hrun => exact runProc_rxMove ha hrun
  | @rx f sndNxt io _ _ hparse hrx =>
      obtain ⟨s₁, h₁, hmove⟩ := runRx_spec hok f sndNxt io
      cases h.symm.trans h₁
      exact hmove
  | @ackOut io => exact inert_of_sameRx ((SameRx.refl _).tcpTxAck io) (SameReaders.refl _)
  | resend _ hfin =>
      exact inert_of_sameRx (sameRx_tcpTxFastRetransmitFinish hfin) (SameReaders.refl _)
  | timeouts hto => exact htimers hto rfl (SameReaders.refl _)
  | retransmit hfree hto => exact htimers hto rfl (SameReaders.move rfl (hidle hfree) rfl)
  | txDone => exact inert_of_sameRx ⟨rfl, rfl⟩ (SameReaders.refl _)
  | @netErr err io c hfail =>
      obtain ⟨hst, hside⟩ := tcpConnFail_spec hfail
      refine .fail hside hst (SameReaders.refl _) ?_
      rintro rfl
      exact ⟨io, rfl⟩

end Skyloft
