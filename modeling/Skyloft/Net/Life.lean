import Skyloft.Net.Frame
import Skyloft.Net.Handshake

/-!
# State and references

What each function does to the state of a connection, to its reference count and to
the number of times it was destroyed.  Only three functions touch them:
`tcp_conn_set_state`, `tcp_conn_get` and `tcp_conn_put`; there is one lemma for each
function that leaves them alone, and one for each that calls these.

## Main definitions

* `Life`, `Conn.life` — state, references and destructions.
* `Life.put`, `Life.fail` — `tcp_conn_put` and `tcp_conn_fail`.
* `rxEstablished_life` — what a segment does to an established connection.
-/

namespace Skyloft

open Run

/-- The state of a connection, its reference count and how often it was destroyed. -/
structure Life where
  state : TcpState
  ref : ℤ
  destroyed : ℕ
  deriving DecidableEq

def Conn.life (c : Conn) : Life := ⟨c.state, c.ref, c.destroyed⟩

namespace Life

/-- A reference is dropped; the last one destroys the connection. -/
def put (x : Life) : Life :=
  { x with ref := x.ref - 1, destroyed := x.destroyed + if x.ref = 1 then 1 else 0 }

/-- The connection fails: it is closed, and the state machine drops its reference. -/
def fail (x : Life) : Life := put { x with state := .closed }

@[simp] theorem state_put (x : Life) : x.put.state = x.state := rfl
@[simp] theorem state_fail (x : Life) : x.fail.state = .closed := rfl

end Life

/-! ## Functions that leave state and references alone -/

/-- The egress path leaves them alone. -/
theorem life_of_txFrame {c c' : Conn} (h : c'.txFrame = c.txFrame) : c'.life = c.life := by
  have hlife : c'.txFrame.life = c.txFrame.life := congrArg Conn.life h
  exact hlife

@[simp] theorem life_tcpTxRawRst (c : Conn) (seq : Seq) (io : Io) :
    (tcpTxRawRst c seq io).life = c.life := life_of_txFrame (txFrame_tcpTxRawRst c seq io)

@[simp] theorem life_sendRst (c : Conn) (acked : Bool) (s : Segment) (io : Io) :
    (sendRst c acked s io).life = c.life := life_of_txFrame (txFrame_sendRst c acked s io)

@[simp] theorem life_tcpTxAck (c : Conn) (io : Io) : (tcpTxAck c io).life = c.life :=
  life_of_txFrame (txFrame_tcpTxAck c io)

@[simp] theorem life_tcpTxCtl (c : Conn) (flags : TcpFlags) (io : Io) :
    (tcpTxCtl c flags io).1.life = c.life := life_of_txFrame (txFrame_tcpTxCtl c flags io)

@[simp] theorem life_tcpConnAck (c : Conn) : (tcpConnAck c).life = c.life :=
  life_of_txFrame (txFrame_tcpConnAck c)

@[simp] theorem life_tcpTxFastRetransmitStart (c : Conn) (now : Usec) :
    (tcpTxFastRetransmitStart c now).1.life = c.life :=
  life_of_txFrame (txFrame_tcpTxFastRetransmitStart c now)

theorem life_tcpTxSend {c c' : Conn} {buf : List Byte} {push : Bool} {io : Io} {ret : ℤ}
    (h : tcpTxSend c buf push io = .ok (c', ret)) : c'.life = c.life :=
  life_of_txFrame (txFrame_tcpTxSend h)

theorem life_tcpTxRetransmit {c c' : Conn} {io : Io} (h : tcpTxRetransmit c io = .ok c') :
    c'.life = c.life := life_of_txFrame (txFrame_tcpTxRetransmit h)

theorem life_tcpTxFastRetransmitFinish {c c' : Conn} {m : Mbuf} {io : Io}
    (h : tcpTxFastRetransmitFinish c m io = .ok c') : c'.life = c.life :=
  life_of_txFrame (txFrame_tcpTxFastRetransmitFinish h)

@[simp] theorem life_tcpTimerUpdate (c : Conn) (now : Usec) :
    (tcpTimerUpdate c now).life = c.life := rfl

@[simp] theorem life_tcpConnShutdownRx (c : Conn) : (tcpConnShutdownRx c).life = c.life := by
  rw [tcpConnShutdownRx]
  split <;> rfl

@[simp] theorem life_readTake (c : Conn) (p : Popped) : (readTake c p).life = c.life := by
  rw [readTake]
  cases p.fin
  · rfl
  · exact life_tcpConnShutdownRx c

@[simp] theorem life_readWndUpdate (c : Conn) (io : Io) : (readWndUpdate c io).life = c.life := by
  rw [readWndUpdate]
  split
  · exact life_tcpTxAck c io
  · rfl

theorem life_tcpReadCopy {c c' : Conn} {len : ℕ} {q : List Mbuf} {part : Bool}
    {bytes : List Byte} (h : tcpReadCopy c len q part = .ok (c', bytes)) : c'.life = c.life := by
  obtain ⟨rxq, rfl⟩ := tcpReadCopy_eq h
  rfl

theorem life_tcpWriteFinish {c c' : Conn} {now : Usec} {re : Option Mbuf}
    (h : tcpWriteFinish c now = .ok (c', re)) : c'.life = c.life := by
  have hqueue : ∀ d : Conn, (writeFinishQueue d now).1.life = d.life := by
    intro d
    rw [writeFinishQueue]
    split
    · rfl
    split
    · dsimp only
      split
      · exact life_tcpTxFastRetransmitStart _ now
      · rfl
    · rfl
  obtain ⟨-, d, _, _, u, hd, hu, rfl⟩ := tcpWriteFinish_eq h
  change u.life = _
  rw [hu, hqueue]
  change d.life = _
  rw [hd]
  exact life_tcpConnAck _

theorem life_tcpRxAppendText {c c' : Conn} {m : Mbuf} (h : tcpRxAppendText c m = .ok c') :
    c'.life = c.life := by
  rw [tcpRxAppendText] at h
  split_ifs at h
  obtain ⟨m₁, -, h⟩ := bind_eq_ok.mp h
  obtain ⟨m₂, -, h⟩ := bind_eq_ok.mp h
  split_ifs at h
  cases h
  rfl

theorem life_rxDrain {pushed : Bool} : ∀ {q : List Mbuf} {c c' : Conn} {wake wake' : Bool},
    rxDrain pushed c wake q = .ok (c', wake') → c'.life = c.life := by
  intro q
  induction q with
  | nil => intro c c' wake wake' h; cases h; rfl
  | cons pos rest ih =>
      intro c c' wake wake' h
      rw [rxDrain] at h
      split_ifs at h
      · exact ih h
      · cases h; rfl
      · obtain ⟨c₁, h₁, h⟩ := bind_eq_ok.mp h
        exact (ih h).trans (life_tcpRxAppendText h₁)

theorem life_tcpRxText {c : Conn} {m : Mbuf} {r : RxText} (h : tcpRxText c m = .ok r) :
    r.conn.life = c.life := by
  rw [tcpRxText] at h
  split_ifs at h
  · cases h; rfl
  · obtain ⟨c₁, h₁, h⟩ := bind_eq_ok.mp h
    obtain ⟨⟨c₂, wake⟩, h₂, h⟩ := bind_eq_ok.mp h
    cases h
    exact (life_rxDrain h₂).trans (life_tcpRxAppendText h₁)
  · split at h
    · cases h; rfl
    · obtain ⟨⟨c₂, wake⟩, h₂, h⟩ := bind_eq_ok.mp h
      cases h
      exact life_rxDrain h₂

theorem life_rxTextStep {c c' : Conn} {s : Segment} {now : Usec} {drop ack : Bool}
    (h : rxTextStep c s now = .ok (c', drop, ack)) : c'.life = c.life := by
  rw [rxTextStep] at h
  split at h
  · obtain ⟨r, h₁, h⟩ := bind_eq_ok.mp h
    rw [← life_tcpRxText h₁]
    rw [rxTextWake] at h
    split_ifs at h <;> cases h <;> dsimp only <;> split <;> rfl
  · cases h
    rfl

theorem life_rxDupAck (c : Conn) (s : Segment) (now : Usec) :
    (rxDupAck c s now).1.life = c.life := by
  rw [rxDupAck]
  split
  · dsimp only
    split
    · split
      · rfl
      · exact life_tcpTxFastRetransmitStart _ now
    · rfl
  · rfl

theorem life_rxAck {c c' : Conn} {s : Segment} {sndNxt : Seq} (h : rxAck c s sndNxt = some c') :
    c'.life = c.life := by
  rw [rxAck] at h
  split at h
  · cases h
    exact life_tcpConnAck _
  · split at h
    · cases h
    · cases h; rfl

theorem life_rxSndWnd (c : Conn) (s : Segment) : (rxSndWnd c s).life = c.life := by
  rw [rxSndWnd]
  split <;> rfl

/-! ## Functions that change them -/

theorem life_tcpConnSetState {c c' : Conn} {new : TcpState} {now : Usec}
    (h : tcpConnSetState c new now = .ok c') : c'.life = { c.life with state := new } := by
  obtain ⟨wq, rfl⟩ := tcpConnSetState_eq h
  rfl

theorem life_tcpConnPut {c c' : Conn} (h : tcpConnPut c = .ok c') : c'.life = c.life.put := by
  rw [tcpConnPut] at h
  dsimp only at h
  by_cases hz : c.ref = 1
  · rw [if_pos (by omega)] at h
    split at h
    · cases h
      simp [Conn.life, Life.put, tcpConnDestroy, hz]
    · cases h
  · rw [if_neg (by omega)] at h
    cases h
    simp [Conn.life, Life.put, hz]

theorem life_tcpConnFail {c c' : Conn} {err : ℤ} {now : Usec}
    (h : tcpConnFail c err now = .ok c') : c'.life = c.life.fail := by
  obtain ⟨c₁, h₁, h₂⟩ := bind_eq_ok.mp h
  rw [life_tcpConnPut h₂, Life.fail]
  congr 1
  change c₁.life = _
  exact (life_tcpConnSetState h₁).trans rfl

/-- The transitions taken when this side's FIN is acknowledged. -/
inductive CloseMove : TcpState → TcpState → Prop
  | finWait2 : CloseMove .finWait1 .finWait2
  | timeWait : CloseMove .closing .timeWait
  | closed : CloseMove .lastAck .closed

theorem CloseMove.ne_synReceived {st st' : TcpState} (h : CloseMove st st') :
    st' ≠ .synReceived := by
  cases h <;> decide

/-- The close transitions are taken when `snd_una` is the loaded `snd_nxt`; in
LAST_ACK the state machine then drops its reference. -/
theorem life_rxCloseStep {c c' : Conn} {sndNxt : Seq} {now : Usec} {b : Bool}
    (h : rxCloseStep c sndNxt now = .ok (c', b)) :
    (b = false ∧ c'.life = c.life) ∨
      (b = false ∧ c.snd.una = sndNxt ∧ c.state ≠ .lastAck ∧
        ∃ st, CloseMove c.state st ∧ c'.life = { c.life with state := st }) ∨
      (b = true ∧ c.snd.una = sndNxt ∧ c.state = .lastAck ∧ c'.life = c.life.fail) := by
  rw [rxCloseStep] at h
  split at h
  · rename_i hst
    obtain ⟨c₁, h₁, h⟩ := bind_eq_ok.mp h
    cases h
    refine .inr (.inl ⟨rfl, hst.2, by rw [hst.1]; decide, .finWait2, ?_, life_tcpConnSetState h₁⟩)
    rw [hst.1]
    exact .finWait2
  split at h
  · rename_i hst
    obtain ⟨c₁, h₁, h⟩ := bind_eq_ok.mp h
    cases h
    refine .inr (.inl ⟨rfl, hst.2, by rw [hst.1]; decide, .timeWait, ?_,
      (life_tcpConnSetState h₁).trans rfl⟩)
    rw [hst.1]
    exact .timeWait
  split at h
  · rename_i hst
    obtain ⟨c₁, h₁, h⟩ := bind_eq_ok.mp h
    obtain ⟨c₂, h₂, h⟩ := bind_eq_ok.mp h
    cases h
    refine .inr (.inr ⟨rfl, hst.2, hst.1, ?_⟩)
    rw [life_tcpConnPut h₂, life_tcpConnSetState h₁]
    rfl
  · cases h
    exact .inl ⟨rfl, rfl⟩

/-- The peer's FIN moves the state on. -/
theorem life_rxFinStep {c c' : Conn} {s : Segment} {sndNxt : Seq} {now : Usec} {ack : Bool}
    (hsyn : c.state ≠ .synReceived) (h : rxFinStep c s sndNxt now = .ok (c', ack)) :
    c'.life = c.life ∨ c'.life = { c.life with state := c.state.afterFin } := by
  rw [rxFinStep] at h
  split at h
  · cases h
    exact .inl rfl
  split at h
  · rename_i hst
    obtain ⟨c₁, h₁, h⟩ := bind_eq_ok.mp h
    cases h
    refine .inr ?_
    rw [life_tcpConnSetState h₁, hst.resolve_left hsyn]
    rfl
  split at h
  · rename_i hst
    split at h
    · cases h
    · obtain ⟨c₁, h₁, h⟩ := bind_eq_ok.mp h
      cases h
      refine .inr ?_
      rw [life_tcpConnSetState h₁, hst]
      rfl
  split at h
  · rename_i hst
    obtain ⟨c₁, h₁, h⟩ := bind_eq_ok.mp h
    cases h
    refine .inr ?_
    rw [life_tcpConnSetState h₁, hst]
    rfl
  · cases h
    exact .inl rfl

/-- What the steps from the acknowledgement on can do: a close transition, or not,
and then the transition for the peer's FIN, or not. -/
inductive EstMove (acked : Prop) (x x' : Life) : Prop
  | plain : x' = x ∨ x' = { x with state := x.state.afterFin } → EstMove acked x x'
  | close {st : TcpState} : acked → CloseMove x.state st → x.state ≠ .lastAck →
      x' = { x with state := st } ∨ x' = { x with state := st.afterFin } → EstMove acked x x'
  | lastAck : acked → x.state = .lastAck → x' = x.fail → EstMove acked x x'

/-- The acknowledgement step takes `snd_una` to the loaded `snd_nxt`, or finds it
there and an older acknowledgement. -/
def AckedTo (una ack sndNxt : Seq) : Prop :=
  (wrapsLte una ack ∧ ack = sndNxt) ∨
    (una = sndNxt ∧ ¬ wrapsLte una ack ∧ ¬ wrapsGt ack sndNxt)

instance (una ack sndNxt : Seq) : Decidable (AckedTo una ack sndNxt) :=
  inferInstanceAs (Decidable (_ ∨ _))

/-- What the acknowledgement step leaves when `snd_una` is the loaded `snd_nxt` then. -/
theorem rxAck_ackedTo {c c' : Conn} {s : Segment} {sndNxt : Seq}
    (h : rxAck c s sndNxt = some c') (huna : c'.snd.una = sndNxt) :
    AckedTo c.snd.una s.ack sndNxt := by
  rw [rxAck] at h
  split at h
  · rename_i hle
    cases h
    have hsnd := congrArg TxSide.snd (txSide_tcpConnAck
      { c with
        snd := { c.snd with una := s.ack }
        tmr := { c.tmr with repAcks := if c.snd.una ≠ s.ack then 0 else c.tmr.repAcks } })
    have hack : s.ack = sndNxt := by
      rw [← huna]
      exact (congrArg SndVars.una (hsnd.trans (TxSide.snd_trimmed _))).symm
    exact .inl ⟨hle.1, hack⟩
  · rename_i hle
    split at h
    · cases h
    · rename_i hgt
      cases h
      exact .inr ⟨huna, fun hlte => hle ⟨hlte, wrapsLte_of_not_wrapsGt hgt⟩, hgt⟩

/-- **A segment on an established connection** takes a close transition only when
the `snd_una` it leaves is the loaded `snd_nxt`. -/
theorem rxEstablished_life {c : Conn} {s : Segment} {sndNxt : Seq} {io : Io} {r : RxOut}
    (hst : .established ≤ c.state) (h : rxEstablished c s sndNxt io = .ok r) :
    EstMove (r.conn.snd.una = sndNxt ∧ AckedTo c.snd.una s.ack sndNxt) c.life r.conn.life := by
  have h₁ := life_rxDupAck c s io.now
  have hside₁ := txSide_rxDupAck c s io.now
  rw [rxEstablished] at h
  generalize rxDupAck c s io.now = r₁ at h h₁ hside₁
  obtain ⟨c₁, re⟩ := r₁
  dsimp only at h h₁ hside₁
  cases ha : rxAck c₁ s sndNxt with
  | none =>
      rw [ha] at h
      cases h
      exact .plain (.inl h₁)
  | some c₂ =>
      rw [ha] at h
      obtain ⟨⟨c₄, closed⟩, h₄, h⟩ := bind_eq_ok.mp h
      generalize hc₃ : (if decide (isSndFull c₁) = true ∧ ¬ isSndFull (rxSndWnd c₂ s) then
          { rxSndWnd c₂ s with tx := { (rxSndWnd c₂ s).tx with wq := [] } }
          else rxSndWnd c₂ s) = c₃ at h₄
      have hl₃ : c₃.life = c.life := by
        rw [← hc₃, ← h₁, ← life_rxAck ha]
        split
        · exact life_rxSndWnd c₂ s
        · exact life_rxSndWnd c₂ s
      have hst₃ : c₃.state = c.state := congrArg Life.state hl₃
      have huna₃ : c₃.snd.una = c₂.snd.una := by
        rw [← hc₃]
        obtain ⟨wnd, wl1, wl2, -, hwnd⟩ := txSide_rxSndWnd c₂ s
        have hsnd := congrArg (fun x : TxSide => x.snd.una) hwnd
        split <;> exact hsnd
      have hacked : c₃.snd.una = sndNxt → AckedTo c.snd.una s.ack sndNxt := by
        intro huna
        have hto := rxAck_ackedTo ha (huna₃.symm.trans huna)
        rwa [show c₁.snd = c.snd from congrArg TxSide.snd hside₁] at hto
      have hsnd₄ : c₄.snd = c₃.snd := congrArg TxSide.snd (txSide_rxCloseStep h₄)
      dsimp only at h
      rcases life_rxCloseStep h₄ with ⟨rfl, hl⟩ | ⟨rfl, huna, hne, st, hmove, hl⟩ |
        ⟨rfl, huna, hlast, hl⟩
      · rw [if_neg (by simp)] at h
        obtain ⟨⟨c₅, drop, ack⟩, h₅, h⟩ := bind_eq_ok.mp h
        obtain ⟨⟨c₆, ack'⟩, h₆, h⟩ := bind_eq_ok.mp h
        cases h
        have hl₅ : c₅.life = c.life := (life_rxTextStep h₅).trans (hl.trans hl₃)
        have hst₅ : c₅.state = c.state := congrArg Life.state hl₅
        have hrecv : c₅.state ≠ .synReceived := by
          intro hr
          rw [← hst₅, hr] at hst
          exact absurd hst (by decide)
        have hfin := life_rxFinStep hrecv h₆
        rw [hl₅, hst₅] at hfin
        exact .plain hfin
      · rw [if_neg (by simp)] at h
        obtain ⟨⟨c₅, drop, ack⟩, h₅, h⟩ := bind_eq_ok.mp h
        obtain ⟨⟨c₆, ack'⟩, h₆, h⟩ := bind_eq_ok.mp h
        cases h
        rw [hl₃] at hl
        rw [hst₃] at hmove hne
        have hl₅ : c₅.life = { c.life with state := st } := (life_rxTextStep h₅).trans hl
        have hst₅ : c₅.state = st := congrArg Life.state hl₅
        have hrecv : c₅.state ≠ .synReceived := by
          rw [hst₅]
          exact hmove.ne_synReceived
        have hsnd₆ : c₆.snd = c₄.snd :=
          congrArg TxSide.snd ((txSide_rxFinStep h₆).trans (txSide_rxTextStep h₅))
        have hfin := life_rxFinStep hrecv h₆
        rw [hl₅, hst₅] at hfin
        refine .close ⟨?_, hacked huna⟩ hmove hne hfin
        change c₆.snd.una = sndNxt
        rw [hsnd₆, hsnd₄, huna]
      · rw [if_pos rfl] at h
        cases h
        refine .lastAck ⟨?_, hacked huna⟩ (hst₃.symm.trans hlast) (by rw [hl, hl₃])
        change c₄.snd.una = sndNxt
        rw [hsnd₄, huna]

/-- The segment gets to the acknowledgement step. -/
def ReachesAck (c : Conn) (s : Segment) : Prop :=
  isAcceptable c.rcv s.len s.seq ∧ s.flags.rst = false ∧ s.flags.syn = false ∧ s.flags.ack

instance (c : Conn) (s : Segment) : Decidable (ReachesAck c s) :=
  inferInstanceAs (Decidable (_ ∧ _ ∧ _ ∧ _))

/-- What a segment does to the state and the references of a connection. -/
inductive RxLife (c : Conn) (s : Segment) (sndNxt : Seq) (c' : Conn) : Prop
  | same : c'.life = c.life → RxLife c s sndNxt c'
  /-- The handshake moves on. -/
  | early {st : TcpState} : c.state < .established → st ≤ .established →
      c'.life = { c.life with state := st } → RxLife c s sndNxt c'
  /-- The connection fails. -/
  | fail : c.state ≠ .closed → c.state = .synSent ∨ s.flags.rst ∨ s.flags.syn →
      c'.life = c.life.fail → c'.tx.closed → RxLife c s sndNxt c'
  /-- The steps from the acknowledgement on. -/
  | est {x : Life} : (x = c.life ∧ .established ≤ c.state ∧ c.state ≠ .closed) ∨
        (x = { c.life with state := .established } ∧ c.state = .synReceived) →
      ReachesAck c s →
      EstMove (c'.snd.una = sndNxt ∧ AckedTo c.snd.una s.ack sndNxt) x c'.life →
      RxLife c s sndNxt c'

/-- The SYN_SENT branch. -/
theorem rxSynSent_life {c : Conn} {s : Segment} {sndNxt : Seq} {io : Io} {r : RxOut}
    (hst : c.state = .synSent) (h : rxSynSent c s sndNxt io = .ok r) :
    RxLife c s sndNxt r.conn := by
  have hearly : c.state < .established := by rw [hst]; decide
  rw [rxSynSent] at h
  split at h
  · cases h
    exact .same (life_sendRst _ _ _ _)
  split at h
  · obtain ⟨c₁, h₁, h⟩ := bind_eq_ok.mp h
    cases h
    exact .fail (by rw [hst]; decide) (.inl hst) (life_tcpConnFail h₁)
      (congrArg TxSide.closed (txSide_tcpConnFail h₁))
  split at h
  · cases h
    exact .same rfl
  split at h
  · dsimp only at h
    generalize hc₁ : (if s.flags.ack = true then _ else _ : Conn) = c₁ at h
    have hl₁ : c₁.life = c.life := by
      rw [← hc₁]
      split
      · exact life_tcpConnAck _
      · rfl
    split at h
    · obtain ⟨c₂, h₂, h⟩ := bind_eq_ok.mp h
      cases h
      have hl₂ : c₂.life = { c₁.life with state := .established } :=
        (life_tcpConnSetState h₂).trans rfl
      exact .early hearly (Nat.le_refl _) (by rw [hl₂, hl₁])
    · have hctl := life_tcpTxCtl c₁ { syn := true, ack := true } io
      generalize tcpTxCtl c₁ { syn := true, ack := true } io = r₁ at h hctl
      obtain ⟨c₂, ret⟩ := r₁
      dsimp only at h hctl
      split at h
      · cases h
        exact .same (hctl.trans hl₁)
      · obtain ⟨c₃, h₃, h⟩ := bind_eq_ok.mp h
        cases h
        have hl₃ : c₃.life = { c₂.life with state := .synReceived } := life_tcpConnSetState h₃
        exact @RxLife.early _ _ _ _ .synReceived hearly (by decide) (by rw [hl₃, hctl, hl₁])
  · cases h
    exact .same rfl

/-- **A segment** and the state and references of a connection. -/
theorem tcpRxConn_life {c : Conn} {s : Segment} {sndNxt : Seq} {io : Io} {r : RxOut}
    (h : tcpRxConn c s sndNxt io = .ok r) : RxLife c s sndNxt r.conn := by
  obtain ⟨r, h₁, h⟩ := bind_eq_ok.mp h
  cases h
  -- the timer update at the end changes neither the state nor the references
  suffices hr : RxLife c s sndNxt r.conn by
    cases hr with
    | same hl => exact .same hl
    | early hst hst' hl => exact .early hst hst' hl
    | fail hne hwhy hl hcl => exact .fail hne hwhy hl hcl
    | est hx hreach hmove => exact .est hx hreach hmove
  rw [tcpRxConnBody] at h₁
  split at h₁
  · cases h₁
    dsimp only
    split
    · exact .same rfl
    · exact .same (life_sendRst _ _ _ _)
  rename_i hne
  split at h₁
  · rename_i hst
    exact rxSynSent_life hst h₁
  rename_i hsent
  split at h₁
  · cases h₁
    exact .same rfl
  rename_i hacc
  rw [not_not] at hacc
  split at h₁
  · rename_i hrst
    obtain ⟨c₁, h₂, h₁⟩ := bind_eq_ok.mp h₁
    cases h₁
    exact .fail hne (.inr (.inl hrst)) (life_tcpConnFail h₂)
      (congrArg TxSide.closed (txSide_tcpConnFail h₂))
  rename_i hrst
  split at h₁
  · rename_i hsyn
    obtain ⟨c₁, h₂, h₁⟩ := bind_eq_ok.mp h₁
    cases h₁
    refine .fail hne (.inr (.inr hsyn)) ?_ (congrArg TxSide.closed (txSide_tcpConnFail h₂))
    rw [life_tcpConnFail h₂, life_sendRst]
  rename_i hsyn
  split at h₁
  · cases h₁
    exact .same rfl
  rename_i hack
  have hreach : ReachesAck c s := ⟨hacc, by simpa using hrst, by simpa using hsyn, by simpa using hack⟩
  split at h₁
  · rename_i hrecv
    split at h₁
    · obtain ⟨c₁, h₂, h₁⟩ := bind_eq_ok.mp h₁
      have hl₁ : c₁.life = { c.life with state := .established } :=
        (life_tcpConnSetState h₂).trans rfl
      have hst₁ : c₁.state = .established := congrArg Life.state hl₁
      have huna : c₁.snd.una = c.snd.una :=
        congrArg (fun x : TxSide => x.snd.una) ((txSide_tcpConnSetState h₂).trans rfl)
      have hmove := rxEstablished_life (by rw [hst₁]; exact Nat.le_refl _) h₁
      rw [huna] at hmove
      exact .est (.inr ⟨hl₁, hrecv⟩) hreach hmove
    · cases h₁
      exact .same (life_sendRst _ _ _ _)
  · rename_i hrecv
    have hest : .established ≤ c.state := by
      by_contra hlt
      exact absurd (TcpState.lt_established_iff.mp (Nat.lt_of_not_le hlt)) (by simp [hsent, hrecv])
    exact .est (.inl ⟨rfl, hest, hne⟩) hreach (rxEstablished_life hest h₁)
end Skyloft
