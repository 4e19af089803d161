import Skyloft.Net.Shutdown

/-!
# Control segments that are not sent

`tcp_tx_ctl` has two points of failure.  In front of the first one, the allocation of a buffer,
nothing has happened; the second one, `net_tx_ip`, comes after the segment was queued and took its
sequence number.  Both are reported to the caller.  A `tcp_shutdown` that reports an error leaves
`tx_closed` clear, and its caller may try again.

* `CtlClean` — a failed `tcp_tx_ctl` leaves `snd_nxt` and `txq` alone.
* `OneFin` — what `tcp_shutdown` and its retries have queued so far.
* `failed_ctl_clean_iff` — both hold exactly when no control segment is lost in `net_tx_ip`.
-/

namespace Skyloft

open Run

/-- A control segment is queued and then not sent. -/
def lostCtl (io : Io) : Prop := io.alloc 0 = true ∧ io.net 0 ≠ 0

instance (io : Io) : Decidable (lostCtl io) := inferInstanceAs (Decidable (_ ∧ _))

/-- If `tcp_tx_ctl` returns an error, then `snd_nxt` and `txq` are as before the call. -/
def CtlClean (c : Conn) (flags : TcpFlags) (io : Io) : Prop :=
  (tcpTxCtl c flags io).2 ≠ 0 →
    (tcpTxCtl c flags io).1.snd.nxt = c.snd.nxt ∧ (tcpTxCtl c flags io).1.tx.txq = c.tx.txq

/-- `tcp_shutdown` of the send side, on a connection without an exclusive writer. -/
def shutdownCall (c : Conn) (io : Io) : Except Fault Conn :=
  if c.tx.closed then .ok c
  else do
    let (c, _, _) ← tcpShutdownTxFin c io
    return c

/-- The send side of a connection that had `q` on `txq` and `nxt` for `snd_nxt`: it is shut down
and has one FIN more, at `nxt`, or it is as it was. -/
def OneFin (q : List Mbuf) (nxt : Seq) (c : Conn) : Prop :=
  if c.tx.closed then
    ∃ m, c.tx.txq = q ++ [m] ∧ m.flags.fin = true ∧ m.segSeq = nxt ∧ c.snd.nxt = nxt + 1
  else c.tx.txq = q ∧ c.snd.nxt = nxt

section

variable {c : Conn} {flags : TcpFlags} {io : Io}

/-- A control segment is on `txq` once it has a buffer. -/
theorem tcpTxCtl_of_alloc (ha : io.alloc 0 = true) :
    ∃ m, (tcpTxCtl c flags io).1.tx.txq = c.tx.txq ++ [m] ∧ m.flags = flags ∧
      m.segSeq = c.snd.nxt ∧ (tcpTxCtl c flags io).1.snd.nxt = c.snd.nxt + 1 ∧
      (tcpTxCtl c flags io).1.tx.closed = c.tx.closed := by
  rw [tcpTxCtl, if_pos ha]
  dsimp only
  rw [netTxIp]
  split <;> exact ⟨_, rfl, rfl, rfl, rfl, rfl⟩

theorem tcpTxCtl_of_no_alloc (ha : ¬ io.alloc 0 = true) : tcpTxCtl c flags io = (c, -eNomem) := by
  rw [tcpTxCtl, if_neg ha]

theorem ctlClean_iff : CtlClean c flags io ↔ ¬ lostCtl io := by
  by_cases ha : io.alloc 0 = true
  · obtain ⟨m, hq, -, -, -, -⟩ := @tcpTxCtl_of_alloc c flags io ha
    have hret := ret_tcpTxCtl c flags io
    rw [if_pos ha] at hret
    have hgrown : (tcpTxCtl c flags io).1.tx.txq ≠ c.tx.txq := by
      rw [hq]
      simp
    rw [CtlClean, hret]
    constructor
    · intro h hlost
      exact hgrown (h hlost.2).2
    · intro hno hnet
      exact absurd ⟨ha, hnet⟩ hno
  · refine iff_of_true ?_ (fun h => ha h.1)
    intro _
    rw [tcpTxCtl_of_no_alloc ha]
    exact ⟨rfl, rfl⟩

/-! ## Retries -/

/-- The state change of a shutdown leaves the send side alone. -/
theorem shutdownTxState_ok (c : Conn) (now : Usec) :
    ∃ c', shutdownTxState c now = .ok c' ∧ c'.tx.txq = c.tx.txq ∧ c'.snd = c.snd := by
  have hset : ∀ new, c.state < new → ∃ c', tcpConnSetState c new now = .ok c' ∧
      c'.tx.txq = c.tx.txq ∧ c'.snd = c.snd := by
    intro new hlt
    rw [tcpConnSetState, if_pos (.inr hlt)]
    refine ⟨_, rfl, ?_⟩
    dsimp only
    split <;> exact ⟨rfl, rfl⟩
  rw [shutdownTxState]
  split
  · rename_i hst
    exact hset _ (by rw [hst]; decide)
  split
  · rename_i hst
    exact hset _ (by rw [hst]; decide)
  · exact ⟨c, rfl, rfl, rfl⟩

/-- A call of `tcp_shutdown` that gets no buffer changes nothing. -/
theorem shutdownCall_of_no_alloc (hopen : c.tx.closed = false) (ha : ¬ io.alloc 0 = true) :
    shutdownCall c io = .ok c := by
  have hret : (-eNomem : ℤ) ≠ 0 := by decide
  rw [shutdownCall, if_neg (by simp [hopen]), tcpShutdownTxFin, tcpTxCtl_of_no_alloc ha]
  dsimp only
  rw [if_pos hret]
  rfl

/-- A call of `tcp_shutdown` that gets a buffer queues a FIN; it shuts the send side down if the
FIN is sent. -/
theorem shutdownCall_of_alloc (hopen : c.tx.closed = false) (ha : io.alloc 0 = true) :
    ∃ c' m, shutdownCall c io = .ok c' ∧ c'.tx.txq = c.tx.txq ++ [m] ∧ m.flags.fin = true ∧
      m.segSeq = c.snd.nxt ∧ c'.snd.nxt = c.snd.nxt + 1 ∧
      c'.tx.closed = decide (io.net 0 = 0) := by
  obtain ⟨m, hq, hflags, hseq, hnxt, hcl⟩ :=
    @tcpTxCtl_of_alloc c { fin := true, ack := true } io ha
  have hret := ret_tcpTxCtl c { fin := true, ack := true } io
  rw [if_pos ha] at hret
  rw [shutdownCall, if_neg (by simp [hopen]), tcpShutdownTxFin]
  generalize tcpTxCtl c { fin := true, ack := true } io = r at hq hnxt hcl hret
  obtain ⟨c₁, ret⟩ := r
  dsimp only at hq hnxt hcl hret ⊢
  subst hret
  split
  · rename_i hnet
    refine ⟨c₁, m, rfl, hq, by rw [hflags], hseq, hnxt, ?_⟩
    rw [hcl, hopen, decide_eq_false hnet]
  · rename_i hnet
    rw [not_not] at hnet
    obtain ⟨c₂, h₂, hq₂, hsnd₂⟩ := shutdownTxState_ok c₁ io.now
    rw [h₂]
    refine ⟨_, m, rfl, hq₂.trans hq, by rw [hflags], hseq, ?_, ?_⟩
    · change c₂.snd.nxt = _
      rw [hsnd₂, hnxt]
    · exact (decide_eq_true hnet).symm

end

/-- **One call** leaves a connection with one FIN for its shutdown, unless its FIN is lost. -/
theorem shutdownCall_oneFin {q : List Mbuf} {nxt : Seq} {c : Conn} (io : Io) (h : OneFin q nxt c) :
    ∃ c', shutdownCall c io = .ok c' ∧
      (OneFin q nxt c' ↔ (c.tx.closed = false → ¬ lostCtl io)) := by
  cases hcl : c.tx.closed with
  | true =>
      refine ⟨c, by rw [shutdownCall, if_pos hcl], ?_⟩
      exact iff_of_true h (fun hf => absurd hf (by simp))
  | false =>
      rw [OneFin, hcl, if_neg (by simp)] at h
      by_cases ha : io.alloc 0 = true
      · obtain ⟨c', m, hc', hq', hfin, hseq, hnxt, hcl'⟩ := shutdownCall_of_alloc hcl ha
        refine ⟨c', hc', ?_⟩
        by_cases hnet : io.net 0 = 0
        · rw [decide_eq_true hnet] at hcl'
          refine iff_of_true ?_ (fun _ hlost => hlost.2 hnet)
          rw [OneFin, if_pos hcl']
          exact ⟨m, by rw [hq', h.1], hfin, by rw [hseq, h.2], by rw [hnxt, h.2]⟩
        · rw [decide_eq_false hnet] at hcl'
          refine iff_of_false ?_ (fun hno => hno rfl ⟨ha, hnet⟩)
          rw [OneFin, hcl', if_neg (by simp), hq', h.1]
          rintro ⟨hq, -⟩
          simp at hq
      · refine ⟨c, shutdownCall_of_no_alloc hcl ha, iff_of_true ?_ (fun _ hlost => ha hlost.1)⟩
        rwa [OneFin, hcl, if_neg (by simp)]

/-- **Failed control segments.**  `tcp_tx_ctl` leaves `snd_nxt` and `txq` alone when it returns an
error exactly when the error is not one of `net_tx_ip`; and a connection that is shut down by call
after call has in every state one FIN for a shutdown that succeeded, and none before that, exactly
when no call loses its FIN in `net_tx_ip`. -/
theorem failed_ctl_clean_iff {c : Conn} (hopen : c.tx.closed = false) (ios : List Io) :
    (∀ (d : Conn) (flags : TcpFlags) (io : Io), CtlClean d flags io ↔ ¬ lostCtl io) ∧
      (Throughout shutdownCall (OneFin c.tx.txq c.snd.nxt) c ios ↔
        Along shutdownCall (fun d io => d.tx.closed = false → ¬ lostCtl io) c ios) := by
  refine ⟨fun d flags io => ctlClean_iff, ?_⟩
  have hstart : OneFin c.tx.txq c.snd.nxt c := by
    rw [OneFin, hopen, if_neg (by simp)]
    exact ⟨rfl, rfl⟩
  refine throughout_iff_along (I := fun _ => True) (H := fun _ _ => True) ?_ ?_ trivial hstart
    (Along.trivial _ _)
  · intro d io d' _ hd _ hg hstep
    obtain ⟨d₁, h₁, hiff⟩ := shutdownCall_oneFin io hd
    rw [h₁] at hstep
    cases hstep
    exact ⟨trivial, hiff.mpr hg⟩
  · intro d io _ hd _ hg
    obtain ⟨d₁, h₁, hiff⟩ := shutdownCall_oneFin io hd
    exact ⟨d₁, h₁, fun hone => hg (hiff.mp hone)⟩

/-- The connection of an accepted peer that has acknowledged the SYN. -/
def openConn : Conn := (final sysStep accepted [.rx (windowFrame 1000) 1 (Io.good 0)]).conn

/-- The first call gets no buffer, the second one sends the FIN. -/
theorem failed_ctl_clean_no_buffer :
    Throughout shutdownCall (OneFin openConn.tx.txq openConn.snd.nxt) openConn
      [⟨5, fun _ => false, fun _ => 0⟩, Io.good 6] :=
  (failed_ctl_clean_iff (by decide) _).2.mpr (by decide)

/-- The first call loses its FIN in `net_tx_ip` and returns the error, with the FIN on `txq` and its
sequence number taken; the second call queues a second FIN, at the next sequence number. -/
theorem lost_fin_twice :
    let lost : Io := ⟨5, fun _ => true, fun _ => -eNobufs⟩
    openConn.state = .established ∧ (tcpTxCtl openConn { fin := true, ack := true } lost).2 ≠ 0 ∧
      ¬ CtlClean openConn { fin := true, ack := true } lost ∧
      ∃ c, exec shutdownCall openConn [lost, Io.good 6] = .ok c ∧
        c.tx.txq.map (fun m => (m.flags.fin, m.segSeq)) = [(true, 1), (true, 2)] := by
  refine ⟨by decide, by decide, ?_, _, exec_final (by decide),
    by decide⟩
  intro h
  have hnxt := (h (by decide)).1
  revert hnxt
  decide

end Skyloft
