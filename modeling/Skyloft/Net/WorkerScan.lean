import Skyloft.Net.Timeouts

/-!
# The scan of the worker

`tcp_worker` reads the clock once and then visits all connections with that time.  Meanwhile packets
and calls go on, and they stamp a connection with the time that it is then.  The age of a stamp is
an unsigned difference, so a stamp that is later than the time of the worker looks very old.

The check of `next_timeout`, which is made without the lock of the connection, and
`tcp_handle_timeouts` are two steps.

* `workerStep` — one step of the worker, or of a connection.
* `FiresDue` — what `tcp_handle_timeouts` does is due, in integers.
* `StampsNotAfter` — no stamp that it looks at is later than the time of the worker.
* `timers_not_early_iff` — the worker is never early exactly when it never meets such a stamp.
-/

namespace Skyloft

open Run

/-! ## The model -/

/-- The connections and `tcp_worker`: the reading of the clock that it uses, and the connection
whose timeouts it is about to handle. -/
structure WorkerSys (K : Type) where
  conns : K → Sys
  sampled : Usec
  handling : Option K

inductive WorkerEvent (K : Type)
  /-- The worker starts a scan. -/
  | sample (now : Usec)
  /-- It looks at `next_timeout` of a connection. -/
  | check (k : K)
  /-- It handles the timeouts of that connection; `t` is the retransmission task. -/
  | handle (t : Tid) (io : Io)
  /-- Something else happens to a connection. -/
  | conn (k : K) (e : Event)

/-- `tcp_handle_timeouts` and what it starts. -/
def runHandleTimeouts (s : Sys) (now : Usec) (t : Tid) (io : Io) : Except Fault Sys := do
  let (c, doAck, doRetransmit) ← tcpHandleTimeouts s.conn now io.now
  let c := if doAck then tcpTxAck c io else c
  return if doRetransmit then s.move c t .retransmitWait else { s with conn := c }

/-- The reading of the clock that a step of a connection makes. -/
def Event.reads : Event → Option Usec
  | .run _ io | .rx _ _ io | .ackOut io | .resend io | .timeouts _ _ io | .netErr _ io =>
      some io.now
  | .call _ _ | .txDone _ => none

/-- A visit of the worker, which here takes steps of its own. -/
def Event.byWorker : Event → Bool
  | .timeouts _ _ _ => true
  | _ => false

def WorkerEvent.reads {K : Type} : WorkerEvent K → Option Usec
  | .sample now => some now
  | .check _ => none
  | .handle _ io => some io.now
  | .conn _ e => e.reads

section

variable {K : Type} [DecidableEq K]

def workerStep (s : WorkerSys K) : WorkerEvent K → Except Fault (WorkerSys K)
  | .sample now => .ok { s with sampled := now, handling := none }
  | .check k =>
      .ok { s with
        handling := if (s.conns k).conn.tmr.nextTimeout ≤ s.sampled then some k else none }
  | .handle t io =>
      match s.handling with
      | none => .ok s
      | some k =>
          -- the retransmission task is a new one
          if (s.conns k).free t = false then .ok s
          else do
            let s' ← runHandleTimeouts (s.conns k) s.sampled t io
            return { s with conns := Function.update s.conns k s', handling := none }
  | .conn k e =>
      if e.byWorker then .ok s
      else do
        let s' ← sysStep (s.conns k) e
        return { s with conns := Function.update s.conns k s' }

end

/-- The readings of the clock in a run do not go back. -/
def ClockForward {K : Type} (es : List (WorkerEvent K)) : Prop :=
  (es.filterMap WorkerEvent.reads).Pairwise (· ≤ ·)

/-! ## Early and due -/

/-- The time `T` has passed since `ts`, in integers. -/
def Elapsed (now ts T : Usec) : Prop := ts.toNat + T.toNat ≤ now.toNat

/-- The stamp is not later than `now`, or so much later that its unsigned age is small again. -/
def NotAfter (now ts T : Usec) : Prop := ts ≤ now ∨ 2 ^ 64 - T.toNat < ts.toNat - now.toNat

/-- What `tcp_handle_timeouts` did to a connection, with the time `now`, was due. -/
structure FiresDue (c c' : Conn) (retransmit : Bool) (now : Usec) : Prop where
  timeWait : c.state = .timeWait → c'.state = .closed →
    Elapsed now c.tmr.timeWaitTs tcpTimeWaitTimeout
  ack : c.tmr.ackDelayed = true → c'.tmr.ackDelayed = false → Elapsed now c.tmr.ackTs tcpAckTimeout
  retransmit : retransmit = true →
    ∀ m ∈ c.tx.txq.head?, Elapsed now m.timestamp tcpRetransmitTimeout

/-- The time in TIME_WAIT is over, as the code computes it. -/
def timeWaitDue (c : Conn) (now : Usec) : Prop :=
  c.state = .timeWait ∧ tcpTimeWaitTimeout ≤ now - c.tmr.timeWaitTs

/-- No stamp that `tcp_handle_timeouts` looks at is later than `now`. -/
structure StampsNotAfter (c : Conn) (now : Usec) : Prop where
  timeWait : c.state = .timeWait → NotAfter now c.tmr.timeWaitTs tcpTimeWaitTimeout
  ack : ¬ timeWaitDue c now → c.tmr.ackDelayed = true → NotAfter now c.tmr.ackTs tcpAckTimeout
  retransmit : ¬ timeWaitDue c now → c.tx.exclusive = false →
    ∀ m ∈ c.tx.txq.head?, NotAfter now m.timestamp tcpRetransmitTimeout

/-- A step of the worker handles only what is due. -/
def NotEarly {K : Type} (s : WorkerSys K) : WorkerEvent K → Prop
  | .handle _ io => ∀ k ∈ s.handling, ∀ c' ack retransmit,
      tcpHandleTimeouts (s.conns k).conn s.sampled io.now = .ok (c', ack, retransmit) →
        FiresDue (s.conns k).conn c' retransmit s.sampled
  | _ => True

/-- The worker handles the timeouts of an open connection only without later stamps. -/
def NoLaterStamp {K : Type} (s : WorkerSys K) : WorkerEvent K → Prop
  | .handle _ _ => ∀ k ∈ s.handling, (s.conns k).conn.state ≠ .closed →
      StampsNotAfter (s.conns k).conn s.sampled
  | _ => True

/-- An unsigned age is right exactly when the stamp is not later. -/
theorem elapsed_of_due_iff (now ts : Usec) {T : Usec} (hT : 0 < T.toNat) :
    (T ≤ now - ts → Elapsed now ts T) ↔ NotAfter now ts T := by
  rw [Elapsed, NotAfter, BitVec.le_def, BitVec.le_def, BitVec.toNat_sub]
  have hnow := now.isLt
  have hts := ts.isLt
  have hlt := T.isLt
  by_cases hle : ts.toNat ≤ now.toNat
  · have hsub : (2 ^ 64 - ts.toNat + now.toNat) % 2 ^ 64 = now.toNat - ts.toNat := by omega
    rw [hsub]
    exact iff_of_true (fun h => by omega) (.inl hle)
  · have hsub : (2 ^ 64 - ts.toNat + now.toNat) % 2 ^ 64 = 2 ^ 64 - (ts.toNat - now.toNat) := by
      omega
    rw [hsub]
    constructor
    · intro h
      right
      by_contra hge
      have := h (by omega)
      omega
    · rintro (h | h)
      · exact absurd h hle
      · intro hdue
        omega

theorem tcpAckTimeout_pos : 0 < tcpAckTimeout.toNat := by decide
theorem tcpTimeWaitTimeout_pos : 0 < tcpTimeWaitTimeout.toNat := by decide
theorem tcpRetransmitTimeout_pos : 0 < tcpRetransmitTimeout.toNat := by decide

/-! ## One connection -/

section

variable {c c' : Conn} {now : Usec}

/-- The end of TIME_WAIT. -/
theorem tcpHandleTimeouts_of_timeWaitDue (clock : Usec) (hdue : timeWaitDue c now) :
    ∃ c', tcpHandleTimeouts c now clock = .ok (c', false, false) ∧ c'.state = .closed ∧
      c'.tmr.ackDelayed = c.tmr.ackDelayed := by
  obtain ⟨hst, hage⟩ := hdue
  have hopen : c.state ≠ .closed := by simp [hst]
  have hset : tcpConnSetState c .closed clock =
      .ok (tcpTimerUpdate { c with state := .closed } clock) := by
    have hlow : ¬ (c.state < .established ∧ TcpState.established ≤ .closed) := by
      rw [hst]
      decide
    rw [tcpConnSetState, if_pos (.inr (by rw [hst]; decide)), if_neg hlow]
  rw [tcpHandleTimeouts, if_neg hopen, if_pos ⟨hst, hage⟩, hset]
  change ∃ c', (tcpConnPut (tcpTimerUpdate { c with state := .closed } clock) >>= fun c =>
    .ok (c, false, false)) = .ok (c', false, false) ∧ _
  rw [tcpConnPut]
  split
  · rw [if_pos (show (tcpTimerUpdate { c with state := .closed } clock).state = .closed from rfl)]
    exact ⟨_, rfl, rfl, rfl⟩
  · exact ⟨_, rfl, rfl, rfl⟩

/-- The other timeouts of an open connection. -/
theorem tcpHandleTimeouts_of_not_timeWaitDue (clock : Usec) (hopen : c.state ≠ .closed)
    (hdue : ¬ timeWaitDue c now) :
    ∃ c', tcpHandleTimeouts c now clock =
        .ok (c', ackDue c now || decide (c.rx.rxqOoo ≠ []), retransmitDue c now) ∧
      c'.state = c.state ∧
      c'.tmr.ackDelayed = (c.tmr.ackDelayed && !ackDue c now) := by
  rw [timeWaitDue] at hdue
  rw [tcpHandleTimeouts, if_neg hopen, if_neg hdue]
  refine ⟨_, rfl, ?_, ?_⟩
  · cases ackDue c now <;> cases retransmitDue c now <;> rfl
  · cases hack : ackDue c now
    · cases retransmitDue c now <;> simp [tcpTimerUpdate, tcpConnGet]
    · cases retransmitDue c now <;> simp [tcpTimerUpdate, tcpConnGet]

theorem tcpHandleTimeouts_ok (c : Conn) (now clock : Usec) :
    ∃ r, tcpHandleTimeouts c now clock = .ok r := by
  by_cases hopen : c.state = .closed
  · rw [tcpHandleTimeouts, if_pos hopen]
    exact ⟨_, rfl⟩
  · by_cases hdue : timeWaitDue c now
    · obtain ⟨c', h, -⟩ := tcpHandleTimeouts_of_timeWaitDue clock hdue
      exact ⟨_, h⟩
    · obtain ⟨c', h, -⟩ := tcpHandleTimeouts_of_not_timeWaitDue clock hopen hdue
      exact ⟨_, h⟩

theorem retransmitDue_iff : retransmitDue c now = true ↔
    c.tx.exclusive = false ∧ ∃ m ∈ c.tx.txq.head?, tcpRetransmitTimeout ≤ now - m.timestamp := by
  rw [retransmitDue]
  cases c.tx.txq <;> simp

theorem firesDue_iff_of_timeWaitDue (hdue : timeWaitDue c now) (hstate : c'.state = .closed)
    (hack : c'.tmr.ackDelayed = c.tmr.ackDelayed) :
    FiresDue c c' false now ↔ StampsNotAfter c now := by
  have hiff := elapsed_of_due_iff now c.tmr.timeWaitTs tcpTimeWaitTimeout_pos
  constructor
  · intro h
    refine ⟨fun _ => ?_, fun hn => absurd hdue hn, fun hn => absurd hdue hn⟩
    exact hiff.mp fun _ => h.timeWait hdue.1 hstate
  · intro h
    refine ⟨fun hst _ => hiff.mpr (h.timeWait hst) hdue.2, fun h₁ h₂ => ?_, fun hre => ?_⟩
    · rw [hack, h₁] at h₂
      cases h₂
    · cases hre

theorem firesDue_iff_of_not_timeWaitDue (hopen : c.state ≠ .closed) (hdue : ¬ timeWaitDue c now)
    (hstate : c'.state = c.state) (hack : c'.tmr.ackDelayed = (c.tmr.ackDelayed && !ackDue c now)) :
    FiresDue c c' (retransmitDue c now) now ↔ StampsNotAfter c now := by
  have hwait : c.state = .timeWait → NotAfter now c.tmr.timeWaitTs tcpTimeWaitTimeout :=
    fun hst => (elapsed_of_due_iff _ _ tcpTimeWaitTimeout_pos).mp fun h => absurd ⟨hst, h⟩ hdue
  constructor
  · intro h
    refine ⟨hwait, fun _ hdelayed => ?_, fun _ hex m hm => ?_⟩
    · apply (elapsed_of_due_iff _ _ tcpAckTimeout_pos).mp
      intro hage
      apply h.ack hdelayed
      simp [hack, ackDue, hdelayed, hage]
    · apply (elapsed_of_due_iff _ _ tcpRetransmitTimeout_pos).mp
      intro hage
      refine h.retransmit ?_ m hm
      rw [retransmitDue_iff]
      exact ⟨hex, m, hm, hage⟩
  · intro h
    refine ⟨fun hst hcl => ?_, fun hdelayed hcleared => ?_, fun hre m hm => ?_⟩
    · rw [hstate] at hcl
      exact absurd hcl hopen
    · rw [hack, hdelayed] at hcleared
      have hage : tcpAckTimeout ≤ now - c.tmr.ackTs := by simpa [ackDue, hdelayed] using hcleared
      exact (elapsed_of_due_iff _ _ tcpAckTimeout_pos).mpr (h.ack hdue hdelayed) hage
    · obtain ⟨hex, m', hm', hage⟩ := retransmitDue_iff.mp hre
      rw [Option.mem_def.mp hm', Option.mem_some_iff] at hm
      subst hm
      apply (elapsed_of_due_iff _ _ tcpRetransmitTimeout_pos).mpr (h.retransmit hdue hex m' hm')
      exact hage

/-- **`tcp_handle_timeouts` is not early** exactly when no stamp that it looks at is later than the
time it is given. -/
theorem tcpHandleTimeouts_firesDue_iff {clock : Usec} {ack retransmit : Bool}
    (h : tcpHandleTimeouts c now clock = .ok (c', ack, retransmit)) :
    FiresDue c c' retransmit now ↔ (c.state ≠ .closed → StampsNotAfter c now) := by
  by_cases hopen : c.state = .closed
  · rw [tcpHandleTimeouts, if_pos hopen] at h
    cases h
    refine iff_of_true ⟨fun hst => ?_, fun h₁ h₂ => ?_, fun hre => ?_⟩ fun hne => absurd hopen hne
    · rw [hopen] at hst
      cases hst
    · rw [h₁] at h₂
      cases h₂
    · cases hre
  · rw [imp_iff_right hopen]
    by_cases hdue : timeWaitDue c now
    · obtain ⟨c₁, h₁, hstate, hack⟩ := tcpHandleTimeouts_of_timeWaitDue clock hdue
      rw [h₁] at h
      cases h
      exact firesDue_iff_of_timeWaitDue hdue hstate hack
    · obtain ⟨c₁, h₁, hstate, hack⟩ :=
        tcpHandleTimeouts_of_not_timeWaitDue clock hopen hdue
      rw [h₁] at h
      cases h
      exact firesDue_iff_of_not_timeWaitDue hopen hdue hstate hack

end

/-! ## Runs -/

theorem notEarly_iff_noLaterStamp {K : Type} (s : WorkerSys K) (e : WorkerEvent K) :
    NotEarly s e ↔ NoLaterStamp s e := by
  cases e with
  | sample | check | conn => exact Iff.rfl
  | handle t io =>
      constructor
      · intro h k hk
        obtain ⟨⟨c', ack, retransmit⟩, hr⟩ :=
          tcpHandleTimeouts_ok (s.conns k).conn s.sampled io.now
        exact (tcpHandleTimeouts_firesDue_iff hr).mp (h k hk c' ack retransmit hr)
      · intro h k hk c' ack retransmit hr
        exact (tcpHandleTimeouts_firesDue_iff hr).mpr (h k hk)

/-- **Timers are never early** in a run exactly when the worker meets no connection, open and with a
deadline behind it, with a stamp that is later than the time the worker sampled: the start of
TIME_WAIT, that of a delayed acknowledgement, or the transmission of the first segment on `txq`. -/
theorem timers_not_early_iff {K : Type} [DecidableEq K] (s : WorkerSys K)
    (es : List (WorkerEvent K)) :
    Along workerStep NotEarly s es ↔ Along workerStep NoLaterStamp s es := by
  constructor
  · intro h
    exact Along.imp (I := fun _ => True) (fun _ _ _ _ _ _ => trivial)
      (fun s e _ hg => (notEarly_iff_noLaterStamp s e).mp hg) trivial h
  · intro h
    exact Along.imp (I := fun _ => True) (fun _ _ _ _ _ _ => trivial)
      (fun s e _ hg => (notEarly_iff_noLaterStamp s e).mpr hg) trivial h

/-- Steps of one connection alone. -/
theorem exec_conn {K : Type} [DecidableEq K] {k : K} {c : Sys} :
    ∀ {es : List Event} {s : WorkerSys K}, (∀ e ∈ es, e.byWorker = false) →
      exec sysStep (s.conns k) es = .ok c →
        exec workerStep s (es.map (.conn k)) =
          .ok { s with conns := Function.update s.conns k c } := by
  intro es
  induction es with
  | nil =>
      intro s _ h
      cases h
      rw [Function.update_eq_self]
      rfl
  | cons e es ih =>
      intro s hes h
      obtain ⟨c₁, h₁, h₂⟩ := exec_cons_ok.mp h
      rw [List.map_cons, exec_cons_ok]
      refine ⟨{ s with conns := Function.update s.conns k c₁ }, ?_, ?_⟩
      · rw [workerStep, hes e (List.mem_cons_self ..), h₁]
        rfl
      · have htail : exec sysStep (Function.update s.conns k c₁ k) es = .ok c := by
          rwa [Function.update_self]
        rw [ih (fun e' he' => hes e' (List.mem_cons_of_mem _ he')) htail, Function.update_idem]

/-- One connection, before the first scan. -/
def scanned : WorkerSys Unit := ⟨fun _ => accepted, 0, none⟩

/-- A byte that arrives after the FIN of the connection was sent. -/
def lateByte : Event := .rx (peerFrame 1 { ack := true } [42]) 2 (Io.good 1000001)

/-- The FIN of the connection has waited for a second when the worker starts its scan.  Before it
comes to the connection, the byte arrives. -/
def overlap : List (WorkerEvent Unit) :=
  (shutRun (Io.good 5)).map (.conn ()) ++
    .sample 1000000 :: ([lateByte].map (.conn ()) ++ [.check ()])

/-- The connection after the byte. -/
def lateConn : Sys := final sysStep accepted (shutRun (Io.good 5) ++ [lateByte])

theorem lateConn_eq : exec sysStep accepted (shutRun (Io.good 5) ++ [lateByte]) = .ok lateConn :=
  exec_final (by decide)

theorem exec_overlap :
    exec workerStep scanned overlap = .ok ⟨fun _ => lateConn, 1000000, some ()⟩ := by
  obtain ⟨c₁, h₁, h₂⟩ := exec_append_ok.mp lateConn_eq
  rw [overlap, exec_append_ok]
  refine ⟨⟨fun _ => c₁, 0, none⟩, exec_conn (s := scanned) (by decide) h₁, ?_⟩
  rw [exec_cons_ok]
  refine ⟨⟨fun _ => c₁, 1000000, none⟩, rfl, ?_⟩
  rw [exec_append_ok]
  refine ⟨⟨fun _ => lateConn, 1000000, none⟩, exec_conn (by decide) h₂, ?_⟩
  have hpassed : lateConn.conn.tmr.nextTimeout ≤ 1000000 := by decide
  rw [exec_cons_ok]
  refine ⟨⟨fun _ => lateConn, 1000000, some ()⟩, ?_, rfl⟩
  rw [workerStep, if_pos hpassed]

/-- The acknowledgement of the byte is delayed, and sent as if it had waited for 2^64 - 1
microseconds. -/
theorem delayed_ack_early : accepted.Start ∧
    ClockForward (overlap ++ [.handle 1 (Io.good 1000002)]) ∧
    ∃ s, exec workerStep scanned overlap = .ok s ∧
      s.handling = some () ∧ s.sampled = 1000000 ∧ (s.conns ()).conn.tmr.ackDelayed = true ∧
      (s.conns ()).conn.tmr.ackTs = 1000001 ∧ ¬ NotEarly s (.handle 1 (Io.good 1000002)) := by
  have hdelayed : lateConn.conn.tmr.ackDelayed = true := by decide
  have hts : lateConn.conn.tmr.ackTs = 1000001 := by decide
  have hstate : lateConn.conn.state = .finWait1 := by decide
  refine ⟨accepted_start, ?_, _, exec_overlap, rfl, rfl, hdelayed, hts, ?_⟩
  · rw [ClockForward]
    decide
  · rw [notEarly_iff_noLaterStamp]
    intro h
    have hstamps := h () rfl (by simp [hstate])
    have hnotDue : ¬ timeWaitDue lateConn.conn 1000000 := by
      simp [timeWaitDue, hstate]
    have hack : NotAfter 1000000 lateConn.conn.tmr.ackTs tcpAckTimeout :=
      hstamps.ack hnotDue hdelayed
    rw [hts, NotAfter] at hack
    revert hack
    decide

end Skyloft
