import Skyloft.Net.System

/-!
# The stretches of a task, and the events

`runProc` has a branch for each program point, and most of them have branches of their own.  Here
each is a case of a relation, with what the branch has tested.  What a stretch does to a part of
the connection is then proved case by case.  The events of the system are treated alike.

## Main definitions

* `ProcStep`, `runProc_step` — the cases of a stretch, and that there is no other.
* `SysStep`, `sysStep_cases` — the same of an event.
-/

namespace Skyloft

open Run

/-- A task goes from its program point to the next one. -/
inductive ProcStep (s : Sys) (t : Tid) (io : Io) : Sys → Prop
  | idle (hp : s.free t) : ProcStep s t io s
  /-- A wait loop for the send side goes on. -/
  | sleep {p : Proc} (hp : s.procs t = p)
      (hwait : p = .dialWait ∨ (∃ buf, p = .writeWait buf) ∨ (∃ iov, p = .writevWait iov) ∨
        p = .retransmitWait) :
      ProcStep s t io
        { s with conn := { s.conn with tx := { s.conn.tx with wq := s.conn.tx.wq ++ [t] } } }
  | dialFail (hp : s.procs t = .dialWait) (hcl : s.conn.tx.closed) :
      ProcStep s t io (s.move (tcpConnDestroy s.conn) t (.done (-s.conn.err) []))
  | dialled (hp : s.procs t = .dialWait) (hcl : s.conn.tx.closed = false) :
      ProcStep s t io (s.move s.conn t (.done 0 []))
  | readWait {len : ℕ} (hp : s.procs t = .readWait len) : ProcStep s t io (runReadWait s t len io)
  | readCopy {len : ℕ} {q : List Mbuf} {part : Bool} {c : Conn} {bytes : List Byte}
      (hp : s.procs t = .readCopy len q part)
      (hcopy : tcpReadCopy s.conn len q part = .ok (c, bytes)) :
      ProcStep s t io (s.move c t (if part then .readFinish bytes else .done bytes.length bytes))
  | readFinish {bytes : List Byte} (hp : s.procs t = .readFinish bytes) :
      ProcStep s t io (s.move (tcpReadFinish s.conn) t (.done bytes.length bytes))
  | writeClosed {p : Proc} {ret : ℤ} (hp : s.procs t = p)
      (hwait : (∃ buf, p = .writeWait buf) ∨ ∃ iov, p = .writevWait iov) :
      ProcStep s t io (s.move s.conn t (.done ret []))
  /-- `tcp_write_wait` takes the send side, for `tcp_write` or for `tcp_writev`. -/
  | writeLock {p : Proc} (hcl : s.conn.tx.closed = false) (hfree : ¬ writeBlocked s.conn)
      (hp : (∃ buf, s.procs t = .writeWait buf ∧
          p = .writeSend buf (s.conn.snd.una + s.conn.snd.wnd - s.conn.snd.nxt).toNat) ∨
        ∃ iov, s.procs t = .writevWait iov ∧
          p = .writevSend iov (s.conn.snd.una + s.conn.snd.wnd - s.conn.snd.nxt).toNat 0 0) :
      ProcStep s t io
        (s.move { s.conn with tx := { s.conn.tx with exclusive := true } } t p)
  | writeSend {buf : List Byte} {winlen : ℕ} {c : Conn} {ret : ℤ}
      (hp : s.procs t = .writeSend buf winlen)
      (hsend : tcpTxSend s.conn (buf.take winlen) (buf.length ≤ winlen) io = .ok (c, ret)) :
      ProcStep s t io (s.move c t (.writeFinish ret))
  | writevEnd {iov : List (List Byte)} {winlen sent : ℕ} {ret : ℤ}
      (hp : s.procs t = .writevSend iov winlen sent ret) (hend : iov = [] ∨ winlen = 0) :
      ProcStep s t io (s.move s.conn t (.writeFinish (if 0 < sent then sent else ret)))
  | writevSend {buf : List Byte} {iov : List (List Byte)} {winlen sent : ℕ} {ret ret' : ℤ}
      {c : Conn} {p : Proc} (hp : s.procs t = .writevSend (buf :: iov) winlen sent ret)
      (hwin : winlen ≠ 0)
      (hsend : tcpTxSend s.conn (buf.take winlen) (iov.isEmpty && buf.length ≤ winlen) io =
        .ok (c, ret'))
      (hnext : (ret' ≤ 0 ∧ p = .writeFinish (if 0 < sent then sent else ret')) ∨
        (0 < ret' ∧ p = .writevSend iov (winlen - ret'.toNat) (sent + ret'.toNat) ret')) :
      ProcStep s t io (s.move c t p)
  | writeFinish {ret : ℤ} {c : Conn} {re : Option Mbuf} (hp : s.procs t = .writeFinish ret)
      (hfin : tcpWriteFinish s.conn io.now = .ok (c, re)) :
      ProcStep s t io
        { s.move c t (.done ret []) with owedResend := s.owedResend ++ re.toList }
  /-- `tcp_shutdown` of the receive side only. -/
  | shutRx {rd : Bool} (hp : s.procs t = .shutEnter rd false) :
      ProcStep s t io
        (s.move (if rd then tcpConnShutdownRx s.conn else s.conn) t (.done 0 []))
  | shutEnter {k : ShutKind} {s' : Sys}
      (hp : (∃ rd, s.procs t = .shutEnter rd true ∧ k = .shutdown rd) ∨
        (s.procs t = .closeEnter ∧ k = .close))
      (hrun : runShutEnter s t k io = .ok s') : ProcStep s t io s'
  | shutWait {k : ShutKind} {s' : Sys} (hp : s.procs t = .shutWait k)
      (hrun : runShutWait s t k io = .ok s') : ProcStep s t io s'
  | abortClosed (hp : s.procs t = .abortEnter) :
      ProcStep s t io (s.move s.conn t (.done 0 []))
  | abortEnter {c : Conn} (hp : s.procs t = .abortEnter) (hst : s.conn.state ≠ .closed)
      (hfail : tcpConnFail s.conn eConnAborted io.now = .ok c) :
      ProcStep s t io (runAbortWait { s with conn := c } t io)
  | abortWait (hp : s.procs t = .abortWait) : ProcStep s t io (runAbortWait s t io)
  | retransmitLock (hp : s.procs t = .retransmitWait) (hfree : s.conn.tx.exclusive = false)
      (hst : s.conn.state ≠ .closed) :
      ProcStep s t io
        (s.move { s.conn with tx := { s.conn.tx with exclusive := true } } t .retransmitSend)
  | retransmitClosed {c : Conn} (hp : s.procs t = .retransmitWait)
      (hput : tcpConnPut s.conn = .ok c) : ProcStep s t io (s.move c t (.done 0 []))
  | retransmitSend {c : Conn} (hp : s.procs t = .retransmitSend)
      (hsend : tcpTxRetransmit s.conn io = .ok c) :
      ProcStep s t io (s.move c t .retransmitFinish)
  | retransmitFinish {c c' : Conn} {re : Option Mbuf} (hp : s.procs t = .retransmitFinish)
      (hfin : tcpWriteFinish s.conn io.now = .ok (c, re)) (hput : tcpConnPut c = .ok c') :
      ProcStep s t io
        { s.move c' t (.done 0 []) with owedResend := s.owedResend ++ re.toList }

section

variable {s s' : Sys} {t : Tid} {io : Io}

theorem runWriteWait_step {buf : List Byte} (hp : s.procs t = .writeWait buf) :
    ProcStep s t io (runWriteWait s t buf) := by
  rw [runWriteWait, tcpWriteWait]
  split_ifs with hwait hcl
  · exact .sleep hp (.inr (.inl ⟨buf, rfl⟩))
  · exact .writeClosed hp (.inl ⟨buf, rfl⟩)
  · exact .writeClosed hp (.inl ⟨buf, rfl⟩)
  · rw [Bool.not_eq_true] at hcl
    exact .writeLock hcl (fun hb => hwait ⟨hcl, hb⟩) (.inl ⟨buf, hp, rfl⟩)

theorem runWritevWait_step {iov : List (List Byte)} (hp : s.procs t = .writevWait iov) :
    ProcStep s t io (runWritevWait s t iov) := by
  rw [runWritevWait, tcpWriteWait]
  split_ifs with hwait hcl
  · exact .sleep hp (.inr (.inr (.inl ⟨iov, rfl⟩)))
  · exact .writeClosed hp (.inr ⟨iov, rfl⟩)
  · exact .writeClosed hp (.inr ⟨iov, rfl⟩)
  · rw [Bool.not_eq_true] at hcl
    exact .writeLock hcl (fun hb => hwait ⟨hcl, hb⟩) (.inr ⟨iov, hp, rfl⟩)

theorem runWritevSend_step {iov : List (List Byte)} {winlen sent : ℕ} {ret : ℤ}
    (hp : s.procs t = .writevSend iov winlen sent ret)
    (h : runWritevSend s t iov winlen sent ret io = .ok s') : ProcStep s t io s' := by
  unfold runWritevSend at h
  split at h
  · cases h
    exact .writevEnd hp (.inl rfl)
  · split at h
    · rename_i h0
      cases h
      exact .writevEnd hp (.inr h0)
    · rename_i h0
      obtain ⟨⟨c, ret'⟩, hsend, h⟩ := bind_eq_ok.mp h
      dsimp only at h
      split at h
      · rename_i hle
        cases h
        exact .writevSend hp h0 hsend (.inl ⟨hle, rfl⟩)
      · rename_i hle
        cases h
        exact .writevSend hp h0 hsend (.inr ⟨by omega, rfl⟩)

/-- **Every stretch** is one of the cases. -/
theorem runProc_step (h : runProc s t io = .ok s') : ProcStep s t io s' := by
  rw [runProc] at h
  cases hp : s.procs t with
  | idle =>
      rw [hp] at h
      cases h
      exact .idle (by simp [Sys.free, hp])
  | done ret bytes =>
      rw [hp] at h
      cases h
      exact .idle (by simp [Sys.free, hp])
  | dialWait =>
      rw [hp, tcpDialWait] at h
      dsimp only at h
      split_ifs at h with hwait hcl <;> cases h
      · exact .sleep hp (.inl rfl)
      · exact .dialFail hp hcl
      · exact .dialled hp (by simpa using hcl)
  | readWait len =>
      rw [hp] at h
      cases h
      exact .readWait hp
  | readCopy len q part =>
      rw [hp] at h
      obtain ⟨⟨c, bytes⟩, hcopy, h⟩ := bind_eq_ok.mp h
      cases h
      exact .readCopy hp hcopy
  | readFinish bytes =>
      rw [hp] at h
      cases h
      exact .readFinish hp
  | writeWait buf =>
      rw [hp] at h
      cases h
      exact runWriteWait_step hp
  | writeSend buf winlen =>
      rw [hp] at h
      obtain ⟨⟨c, ret⟩, hsend, h⟩ := bind_eq_ok.mp h
      cases h
      exact .writeSend hp hsend
  | writevWait iov =>
      rw [hp] at h
      cases h
      exact runWritevWait_step hp
  | writevSend iov winlen sent ret =>
      rw [hp] at h
      exact runWritevSend_step hp h
  | writeFinish ret =>
      rw [hp] at h
      obtain ⟨⟨c, re⟩, hfin, h⟩ := bind_eq_ok.mp h
      cases h
      exact .writeFinish hp hfin
  | shutEnter rd wr =>
      rw [hp] at h
      dsimp only at h
      cases wr with
      | true => exact .shutEnter (.inl ⟨rd, hp, rfl⟩) (by simpa using h)
      | false =>
          rw [if_neg (by simp)] at h
          cases h
          exact .shutRx hp
  | closeEnter =>
      rw [hp] at h
      dsimp only at h
      split at h
      · cases h
      · exact .shutEnter (.inr ⟨hp, rfl⟩) h
  | shutWait k =>
      rw [hp] at h
      exact .shutWait hp h
  | abortEnter =>
      rw [hp] at h
      dsimp only at h
      split at h
      · cases h
        exact .abortClosed hp
      · rename_i hst
        obtain ⟨c, hfail, h⟩ := bind_eq_ok.mp h
        cases h
        exact .abortEnter hp hst hfail
  | abortWait =>
      rw [hp] at h
      cases h
      exact .abortWait hp
  | retransmitWait =>
      rw [hp, tcpRetransmitWait] at h
      dsimp only at h
      split_ifs at h with hwait hst
      · cases h
        exact .sleep hp (.inr (.inr (.inr rfl)))
      · cases h
        exact .retransmitLock hp (by simpa [hst] using hwait) hst
      · obtain ⟨c, hput, h⟩ := bind_eq_ok.mp h
        cases h
        exact .retransmitClosed hp hput
  | retransmitSend =>
      rw [hp] at h
      obtain ⟨c, hsend, h⟩ := bind_eq_ok.mp h
      cases h
      exact .retransmitSend hp hsend
  | retransmitFinish =>
      rw [hp] at h
      obtain ⟨⟨c, re⟩, hfin, h⟩ := bind_eq_ok.mp h
      obtain ⟨c', hput, h⟩ := bind_eq_ok.mp h
      cases h
      exact .retransmitFinish hp hfin hput

end

/-! ## Events -/

/-- The system takes an event. -/
inductive SysStep (s : Sys) : Event → Sys → Prop
  /-- There is nothing to do.  A task does not run only while it sleeps, and an error is always
  taken. -/
  | skip {e : Event} (hrun : ∀ t io, e = .run t io → s.asleep t = true)
      (herr : ∀ err io, e ≠ .netErr err io) : SysStep s e s
  | call {t : Tid} {c : Call} (hfree : s.free t) :
      SysStep s (.call t c) (s.move s.conn t c.entry)
  | run {t : Tid} {io : Io} {s' : Sys} (ha : s.asleep t = false)
      (hrun : runProc s t io = .ok s') : SysStep s (.run t io) s'
  | rx {f : Frame} {sndNxt : Seq} {io : Io} {seg : Segment} {r : RxOut}
      (hparse : tcpRxParse f = .ok (some seg)) (hrx : tcpRxConn s.conn seg sndNxt io = .ok r) :
      SysStep s (.rx f sndNxt io)
        { s with
          conn := r.conn
          owedAcks := s.owedAcks + (if r.doAck then 1 else 0)
          owedResend := s.owedResend ++ r.retransmit.toList }
  | ackOut {io : Io} :
      SysStep s (.ackOut io) { s with conn := tcpTxAck s.conn io, owedAcks := s.owedAcks - 1 }
  | resend {io : Io} {m : Mbuf} {ms : List Mbuf} {c : Conn} (howed : s.owedResend = m :: ms)
      (hfin : tcpTxFastRetransmitFinish s.conn m io = .ok c) :
      SysStep s (.resend io) { s with conn := c, owedResend := ms }
  | timeouts {now : Usec} {t : Tid} {io : Io} {c : Conn} {doAck : Bool}
      (hto : tcpHandleTimeouts s.conn now io.now = .ok (c, doAck, false)) :
      SysStep s (.timeouts now t io) { s with conn := if doAck then tcpTxAck c io else c }
  /-- `tcp_worker` spawns a retransmission task. -/
  | retransmit {now : Usec} {t : Tid} {io : Io} {c : Conn} {doAck : Bool} (hfree : s.free t)
      (hto : tcpHandleTimeouts s.conn now io.now = .ok (c, doAck, true)) :
      SysStep s (.timeouts now t io)
        (s.move (if doAck then tcpTxAck c io else c) t .retransmitWait)
  | txDone {i : ℕ} :
      SysStep s (.txDone i)
        { s with
          conn := { s.conn with
            tx := { s.conn.tx with
              txq := s.conn.tx.txq.modify i fun m => { m with ref := m.ref - 1 } } } }
  | netErr {err : ℤ} {io : Io} {c : Conn} (hfail : tcpConnFail s.conn err io.now = .ok c) :
      SysStep s (.netErr err io) { s with conn := c }

/-- **Every event** is one of the cases. -/
theorem sysStep_cases {s s' : Sys} {e : Event} (h : sysStep s e = .ok s') : SysStep s e s' := by
  cases e with
  | call t c =>
      cases h
      split
      · rename_i hfree
        exact .call hfree
      · exact .skip nofun nofun
  | run t io =>
      rw [sysStep] at h
      split at h
      · rename_i ha
        cases h
        refine .skip (fun t' io' he => ?_) nofun
        cases he
        exact ha
      · rename_i ha
        exact .run (by simpa using ha) h
  | rx f sndNxt io =>
      obtain ⟨o, hparse, h⟩ := bind_eq_ok.mp h
      cases o with
      | none =>
          cases h
          exact .skip nofun nofun
      | some seg =>
          obtain ⟨r, hrx, h⟩ := bind_eq_ok.mp h
          cases h
          exact .rx hparse hrx
  | ackOut io =>
      cases h
      split
      · exact .skip nofun nofun
      · exact .ackOut
  | resend io =>
      rw [sysStep] at h
      split at h
      · cases h
        exact .skip nofun nofun
      · rename_i howed
        obtain ⟨c, hfin, h⟩ := bind_eq_ok.mp h
        cases h
        exact .resend howed hfin
  | timeouts now t io =>
      rw [sysStep, runTimeouts] at h
      split at h
      · cases h
        exact .skip nofun nofun
      · rename_i hcond
        simp only [not_or, Bool.not_eq_false] at hcond
        obtain ⟨⟨c, doAck, doRetransmit⟩, hto, h⟩ := bind_eq_ok.mp h
        cases h
        cases doRetransmit with
        | false => exact .timeouts hto
        | true => exact .retransmit hcond.2 hto
  | txDone i =>
      cases h
      exact .txDone
  | netErr err io =>
      obtain ⟨c, hfail, h⟩ := bind_eq_ok.mp h
      cases h
      exact .netErr hfail

end Skyloft
