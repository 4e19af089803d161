import Skyloft.Net.Locality
import Skyloft.Net.Reassembly

/-!
# The receive side of one segment

`RxEffect s c c'` lists what `tcp_rx_conn` can do to the receive side and to the
state when it processes the segment `s`: nothing but an acknowledgement's state
change, the opening SYN, a reset, or segment text with the FIN step after it.
`tcpRxConn_spec` says that it does one of these and that no assertion fails, from
every connection that meets `Conn.RxOk`.

## Main definitions

* `Conn.RxOk` — what the ingress path relies on.
* `AckMove`, `TcpState.afterFin` — the state changes of an acknowledgement and of
  a FIN.
* `RxEffect` — the effect of a segment.
* `tcpRxConn_spec` — the effect of `tcp_rx_conn`.
-/

namespace Skyloft

open Run Serial

/-- What the ingress path relies on: the window is at most `TCP_WIN`, nothing is
queued before the connection is established, and the out-of-order queue of a
connection that takes text is in order. -/
structure Conn.RxOk (c : Conn) : Prop where
  wnd_le : c.rcv.wnd.toNat ≤ tcpWin
  early : c.state < .established → c.rx.rxqOoo = []
  ooo : c.state.takesText → Ooo 0 c.rcv.nxt c.rx.rxqOoo

/-- The state changes that an acknowledgement causes. -/
inductive AckMove : TcpState → TcpState → Prop
  | same {st : TcpState} : AckMove st st
  | established : AckMove .synReceived .established
  | finWait2 : AckMove .finWait1 .finWait2
  | timeWait : AckMove .closing .timeWait
  | closed : AckMove .lastAck .closed

/-- The state that takes the text of a segment has the out-of-order queue in
order. -/
theorem Conn.RxOk.ooo_of_ackMove {c : Conn} (h : c.RxOk) {st : TcpState}
    (hm : AckMove c.state st) (ht : st.takesText) : Ooo 0 c.rcv.nxt c.rx.rxqOoo := by
  generalize hc : c.state = st₀ at hm
  cases hm with
  | same => exact h.ooo (hc ▸ ht)
  | established =>
      rw [h.early (by rw [hc]; decide)]
      exact Ooo.nil _ _
  | finWait2 => exact h.ooo (by rw [hc]; rfl)
  | timeWait => cases ht
  | closed => cases ht

/-- The state change that the peer's FIN causes. -/
def TcpState.afterFin : TcpState → TcpState
  | .established => .closeWait
  | .finWait1 => .closing
  | .finWait2 => .timeWait
  | st => st

theorem TcpState.established_le_of_takesText {st : TcpState} (h : st.takesText) :
    ¬ st < .established := by
  revert h
  cases st <;> decide

/-- After the FIN of the peer no text is taken any more. -/
theorem TcpState.afterFin_of_takesText {st : TcpState} (h : st.takesText) :
    ¬ st.afterFin < .established ∧ st.afterFin.takesText = false := by
  revert h
  cases st <;> decide

/-- The receive side after a reader was woken. -/
def RxSide.woken (x : RxSide) (wake : Bool) : RxSide :=
  { x with rx := { x.rx with wq := if wake then x.rx.wq.tail else x.rx.wq } }

/-- What a segment does to the receive side and the state of a connection. -/
inductive RxEffect (s : Segment) (c c' : Conn) : Prop
  | quiet : c'.rxSide = c.rxSide → AckMove c.state c'.state → RxEffect s c c'
  | syn : c.state = .synSent → c'.state ≤ .established →
      c'.rxSide = { c.rxSide with rcv := { c.rcv with nxt := s.seq + 1, irs := s.seq } } →
      RxEffect s c c'
  | reset : c'.state = .closed → c'.rxSide = c.rxSide.failed eConnReset → RxEffect s c c'
  | text {st : TcpState} {x : RxSide} {used wake : Bool} :
      AckMove c.state st → st.takesText → 0 < s.len.toNat →
      isAcceptable c.rcv s.len s.seq → TextOf c.rxSide s.mbuf x used wake →
      (s.flags.fin = false → Ooo 0 x.rcv.nxt x.rx.rxqOoo) → c'.rxSide = x.woken wake →
      c'.state = (if s.flags.fin then st.afterFin else st) → RxEffect s c c'

/-- The effects that leave the text of a segment out. -/
inductive NoText (s : Segment) (c c' : Conn) : Prop
  | quiet : c'.rxSide = c.rxSide → AckMove c.state c'.state → NoText s c c'
  | syn : c.state = .synSent → c'.state ≤ .established →
      c'.rxSide = { c.rxSide with rcv := { c.rcv with nxt := s.seq + 1, irs := s.seq } } →
      NoText s c c'
  | reset : c'.state = .closed → c'.rxSide = c.rxSide.failed eConnReset → NoText s c c'

/-- The effect of a segment whose text was processed. -/
inductive TookText (s : Segment) (c c' : Conn) : Prop
  | mk {st : TcpState} {x : RxSide} {used wake : Bool} :
      AckMove c.state st → st.takesText → 0 < s.len.toNat →
      isAcceptable c.rcv s.len s.seq → TextOf c.rxSide s.mbuf x used wake →
      (s.flags.fin = false → Ooo 0 x.rcv.nxt x.rx.rxqOoo) → c'.rxSide = x.woken wake →
      c'.state = (if s.flags.fin then st.afterFin else st) →
      (0 < ahead s.seq c.rcv.nxt → some x.rx.rxqOoo =
        (rxInsert s.mbuf 0 c.rx.rxqOoo).or (some c.rx.rxqOoo)) → TookText s c c'

/-- The acknowledgement field stops a segment that acknowledges something not yet sent. -/
def Segment.ackPasses (s : Segment) (c : Conn) (sndNxt : Seq) : Prop :=
  (wrapsLte c.snd.una s.ack ∧ wrapsLte s.ack sndNxt) ∨ ¬ wrapsGt s.ack sndNxt

/-- `tcp_rx_conn` comes to the text of the segment. -/
def Segment.goesToText (s : Segment) (c : Conn) (sndNxt : Seq) : Prop :=
  isAcceptable c.rcv s.len s.seq ∧ s.flags.rst = false ∧ s.flags.syn = false ∧
    s.flags.ack = true ∧ 0 < s.len.toNat ∧
    (c.state.takesText ∧ s.ackPasses c sndNxt ∨
      c.state = .synReceived ∧ wrapsLte c.snd.una s.ack ∧ wrapsLte s.ack sndNxt)

/-- What becomes of a segment, by whether `tcp_rx_conn` comes to its text. -/
inductive RxOutcome (s : Segment) (sndNxt : Seq) (c c' : Conn) : Prop
  | text : s.goesToText c sndNxt → TookText s c c' → RxOutcome s sndNxt c c'
  | other : ¬ s.goesToText c sndNxt → NoText s c c' → RxOutcome s sndNxt c c'

theorem RxOutcome.effect {s : Segment} {sndNxt : Seq} {c c' : Conn} (h : RxOutcome s sndNxt c c') :
    RxEffect s c c' := by
  cases h with
  | text _ h =>
      obtain ⟨h₁, h₂, h₃, h₄, h₅, h₆, h₇, h₈, -⟩ := h
      exact .text h₁ h₂ h₃ h₄ h₅ h₆ h₇ h₈
  | other _ h =>
      cases h with
      | quiet h₁ h₂ => exact .quiet h₁ h₂
      | syn h₁ h₂ h₃ => exact .syn h₁ h₂ h₃
      | reset h₁ h₂ => exact .reset h₁ h₂

/-! ## The steps of `tcp_rx_conn` -/

theorem snd_rxDupAck (c : Conn) (s : Segment) (now : Usec) : (rxDupAck c s now).1.snd = c.snd := by
  rw [rxDupAck]
  split
  · dsimp only
    split
    · split
      · rfl
      · rw [tcpTxFastRetransmitStart]
        split
        · rfl
        · split <;> rfl
    · rfl
  · rfl

theorem snd_tcpConnSetState {c c' : Conn} {new : TcpState} {now : Usec}
    (h : tcpConnSetState c new now = .ok c') : c'.snd = c.snd := by
  obtain ⟨wq, rfl⟩ := tcpConnSetState_eq h
  rfl

theorem rxAck_eq_none_iff {c : Conn} {s : Segment} {sndNxt : Seq} :
    rxAck c s sndNxt = none ↔ ¬ s.ackPasses c sndNxt := by
  rw [rxAck, Segment.ackPasses]
  split_ifs <;> simp_all

theorem sameRx_rxDupAck (c : Conn) (s : Segment) (now : Usec) :
    SameRx c (rxDupAck c s now).1 := by
  rw [rxDupAck]
  split
  · dsimp only
    split
    · split
      · exact ⟨rfl, rfl⟩
      · refine SameRx.trans (SameRx.tcpTxFastRetransmitStart ?_ now) ⟨rfl, rfl⟩
        exact ⟨rfl, rfl⟩
    · exact ⟨rfl, rfl⟩
  · exact SameRx.refl c

theorem sameRx_rxAck {c c' : Conn} {s : Segment} {sndNxt : Seq}
    (h : rxAck c s sndNxt = some c') : SameRx c c' := by
  rw [rxAck] at h
  split at h
  · cases h
    refine SameRx.tcpConnAck ?_
    exact ⟨rfl, rfl⟩
  · split at h
    · cases h
    · cases h; exact SameRx.refl c

theorem sameRx_rxSndWnd (c : Conn) (s : Segment) : SameRx c (rxSndWnd c s) := by
  rw [rxSndWnd]
  split
  exacts [⟨rfl, rfl⟩, SameRx.refl c]

/-- The close transitions never fault, and they leave FIN_WAIT1 when this side's
FIN is acknowledged. -/
theorem rxCloseStep_spec (c : Conn) (sndNxt : Seq) (now : Usec) :
    ∃ c' closed, rxCloseStep c sndNxt now = .ok (c', closed) ∧ c'.rxSide = c.rxSide ∧
      AckMove c.state c'.state ∧ (c'.state = .finWait1 → c'.snd.una ≠ sndNxt) := by
  rw [rxCloseStep]
  split
  · rename_i h
    obtain ⟨c', h'⟩ := tcpConnSetState_ok now (show c.state < .finWait2 by rw [h.1]; decide)
    obtain ⟨hs, hst⟩ := tcpConnSetState_spec h'
    rw [h']
    exact ⟨c', false, rfl, hs, by rw [h.1, hst]; exact .finWait2, by simp [hst]⟩
  split
  · rename_i h
    have hlt : ({ c with tmr := { c.tmr with timeWaitTs := now } } : Conn).state < .timeWait := by
      change c.state < _
      rw [h.1]
      decide
    obtain ⟨c', h'⟩ := tcpConnSetState_ok now hlt
    obtain ⟨hs, hst⟩ := tcpConnSetState_spec h'
    dsimp only
    rw [h']
    exact ⟨c', false, rfl, hs, by rw [h.1, hst]; exact .timeWait, by simp [hst]⟩
  split
  · rename_i h
    obtain ⟨c₁, h₁⟩ := tcpConnSetState_ok now (show c.state < .closed by rw [h.1]; decide)
    obtain ⟨hs, hst⟩ := tcpConnSetState_spec h₁
    obtain ⟨c', h'⟩ := tcpConnPut_ok hst
    have hp := sameRx_tcpConnPut h'
    refine ⟨c', true, bind_eq_ok.mpr ⟨c₁, h₁, bind_eq_ok.mpr ⟨c', h', rfl⟩⟩,
      hp.side.trans hs, ?_, ?_⟩
    · rw [h.1, hp.state, hst]; exact .closed
    · simp [hp.state, hst]
  · rename_i h₁ _ _
    exact ⟨c, false, rfl, rfl, .same, fun h he => h₁ ⟨h, he⟩⟩

/-- The FIN step. -/
theorem rxFinStep_spec {c : Conn} (s : Segment) {sndNxt : Seq} (now : Usec)
    (hsyn : c.state ≠ .synReceived) (hfw : c.state = .finWait1 → c.snd.una ≠ sndNxt) :
    ∃ c' ack, rxFinStep c s sndNxt now = .ok (c', ack) ∧ c'.rxSide = c.rxSide ∧
      c'.state = if s.flags.fin then c.state.afterFin else c.state := by
  rw [rxFinStep]
  split
  · rename_i h
    exact ⟨c, false, rfl, rfl, by simp [h]⟩
  rename_i hfin
  rw [Bool.not_eq_false] at hfin
  rw [hfin, if_pos rfl]
  split
  · rename_i h
    have he : c.state = .established := h.resolve_left hsyn
    obtain ⟨c', h'⟩ := tcpConnSetState_ok now (show c.state < .closeWait by rw [he]; decide)
    obtain ⟨hs, hst⟩ := tcpConnSetState_spec h'
    rw [h']
    exact ⟨c', false, rfl, hs, by rw [hst, he]; rfl⟩
  split
  · rename_i he
    rw [if_neg (hfw he)]
    obtain ⟨c', h'⟩ := tcpConnSetState_ok now (show c.state < .closing by rw [he]; decide)
    obtain ⟨hs, hst⟩ := tcpConnSetState_spec h'
    rw [h']
    exact ⟨c', false, rfl, hs, by rw [hst, he]; rfl⟩
  split
  · rename_i he
    have hlt : ({ c with tmr := { c.tmr with timeWaitTs := now } } : Conn).state < .timeWait := by
      change c.state < _
      rw [he]
      decide
    obtain ⟨c', h'⟩ := tcpConnSetState_ok now hlt
    obtain ⟨hs, hst⟩ := tcpConnSetState_spec h'
    dsimp only
    rw [h']
    exact ⟨c', true, rfl, hs, by rw [hst, he]; rfl⟩
  · rename_i h₁ h₂ h₃
    refine ⟨c, false, rfl, rfl, ?_⟩
    cases hst : c.state <;> simp_all [TcpState.afterFin]

theorem rxTextWake_spec {c : Conn} {used wake : Bool} (now : Usec)
    (h : wake = true → c.rx.rxq ≠ [] ∧ used = true) :
    ∃ c' drop ack, rxTextWake ⟨c, used, wake⟩ now = .ok (c', drop, ack) ∧ c'.state = c.state ∧
      c'.snd = c.snd ∧ c'.rxSide = c.rxSide.woken wake := by
  rw [rxTextWake, if_neg (fun h' => (h h'.1).1 h'.2), if_neg (fun h' => by simp [h h'.1] at h')]
  refine ⟨_, _, _, rfl, ?_⟩
  cases wake <;> simp only [Bool.false_eq_true, if_true, if_false, RxSide.woken] <;> split <;>
    exact ⟨rfl, rfl, rfl⟩

/-- Step 7 on an acceptable segment: it is skipped, or the text is taken.  A reader
is only woken for a segment that was used, with something on `rxq`. -/
theorem rxTextStep_spec {c : Conn} {s : Segment} (now : Usec) (hs : s.WellFormed)
    (hc : c.RxOk) (hacc : isAcceptable c.rcv s.len s.seq) :
    ∃ c' drop ack, rxTextStep c s now = .ok (c', drop, ack) ∧ c'.state = c.state ∧
      c'.snd = c.snd ∧
      ((c'.rxSide = c.rxSide ∧ ¬ (0 < s.len.toNat ∧ c.state.takesText)) ∨
        ∃ x used wake, 0 < s.len.toNat ∧ c.state.takesText ∧
          TextOf c.rxSide s.mbuf x used wake ∧ c'.rxSide = x.woken wake ∧
          (s.flags.fin = false → Ooo 0 x.rcv.nxt x.rx.rxqOoo) ∧
          (0 < ahead s.seq c.rcv.nxt → some x.rx.rxqOoo =
            (rxInsert s.mbuf 0 c.rx.rxqOoo).or (some c.rx.rxqOoo))) := by
  rw [rxTextStep]
  split
  · rename_i h
    obtain ⟨hpos, htext⟩ := h
    obtain ⟨hwnd, hlo, hhi⟩ := hacc.bounds hc.wnd_le hs.len_le hpos
    obtain ⟨x, used, wake, he, hx, ho, hins⟩ := tcpRxText_spec (c := c) (hs.mbuf hpos) hc.wnd_le
      (hc.ooo htext) hwnd (by rw [Segment.WellFormed.segLen_mbuf]; exact hlo) hhi
    have hused : wake = true → (c.withRx x).rx.rxq ≠ [] ∧ used = true := by
      intro hw
      cases hx with
      | inOrder => exact ⟨by simp [RxSide.drained, Conn.withRx], rfl⟩
      | queued => exact absurd hw (by simp)
      | unused => exact absurd hw (by simp)
    obtain ⟨c', drop, ack, he', hst, hsnd, hside⟩ := rxTextWake_spec now hused
    exact ⟨c', drop, ack, bind_eq_ok.mpr ⟨_, he, he'⟩, hst, hsnd,
      .inr ⟨x, used, wake, hpos, htext, hx, hside, ho, hins⟩⟩
  · rename_i h
    exact ⟨c, true, false, rfl, rfl, rfl, .inl ⟨rfl, h⟩⟩

theorem Conn.RxOk.of_same {c c' : Conn} (hc : c.RxOk) (hside : c'.rxSide = c.rxSide)
    (hst : AckMove c.state c'.state) : c'.RxOk := by
  have hrcv : c'.rcv = c.rcv := congrArg RxSide.rcv hside
  have hrx : c'.rx = c.rx := congrArg RxSide.rx hside
  refine ⟨by rw [hrcv]; exact hc.wnd_le, fun h => ?_, fun h => ?_⟩
  · rw [hrx]
    refine hc.early ?_
    generalize c'.state = st at h hst
    generalize c.state = st₀ at hst
    cases hst <;> first | exact h | exact absurd h (by decide)
  · rw [hrcv, hrx]
    generalize c'.state = st at h hst
    generalize hst₀ : c.state = st₀ at hst
    cases hst with
    | same => exact hc.ooo (hst₀ ▸ h)
    | established =>
        rw [hc.early (by rw [hst₀]; decide)]
        exact Ooo.nil _ _
    | finWait2 => exact hc.ooo (by rw [hst₀]; decide)
    | timeWait => exact absurd h (by decide)
    | closed => exact absurd h (by decide)

/-- From ESTABLISHED on an acknowledgement does not decide whether text is taken. -/
theorem AckMove.takesText_eq {st st' : TcpState} (h : AckMove st st')
    (hst : TcpState.established ≤ st) : st'.takesText = st.takesText := by
  cases h with
  | same => rfl
  | established => exact absurd hst (by decide)
  | finWait2 => rfl
  | timeWait => rfl
  | closed => rfl

/-- The step that closes the connection does so in LAST_ACK. -/
theorem lastAck_of_rxCloseStep {c c' : Conn} {sndNxt : Seq} {now : Usec}
    (h : rxCloseStep c sndNxt now = .ok (c', true)) : c.state = .lastAck := by
  rw [rxCloseStep] at h
  split_ifs at h with h₁ h₂ h₃
  · obtain ⟨_, _, h⟩ := bind_eq_ok.mp h
    cases h
  · obtain ⟨_, _, h⟩ := bind_eq_ok.mp h
    cases h
  · exact h₃.1
  · cases h

/-- The steps from the acknowledgement on come to the text of the segment, or leave the receive
side alone. -/
theorem rxEstablished_outcome {c : Conn} {s : Segment} (sndNxt : Seq) (io : Io)
    (hs : s.WellFormed) (hc : c.RxOk) (hacc : isAcceptable c.rcv s.len s.seq)
    (hst : TcpState.established ≤ c.state) :
    ∃ r, rxEstablished c s sndNxt io = .ok r ∧
      ((c.state.takesText ∧ 0 < s.len.toNat ∧ s.ackPasses c sndNxt) ∧ TookText s c r.conn ∨
        ¬ (c.state.takesText ∧ 0 < s.len.toNat ∧ s.ackPasses c sndNxt) ∧
          r.conn.rxSide = c.rxSide ∧ AckMove c.state r.conn.state) := by
  have h₁ := sameRx_rxDupAck c s io.now
  have hsnd₁ := snd_rxDupAck c s io.now
  rw [rxEstablished]
  generalize rxDupAck c s io.now = r₁ at h₁ hsnd₁
  obtain ⟨c₁, re⟩ := r₁
  dsimp only at h₁ hsnd₁ ⊢
  have hpasses : s.ackPasses c₁ sndNxt ↔ s.ackPasses c sndNxt := by
    rw [Segment.ackPasses, Segment.ackPasses, hsnd₁]
  cases ha : rxAck c₁ s sndNxt with
  | none =>
      rw [rxAck_eq_none_iff, hpasses] at ha
      refine ⟨_, rfl, .inr ⟨fun h => ha h.2.2, h₁.side, ?_⟩⟩
      change AckMove c.state c₁.state
      rw [h₁.state]
      exact .same
  | some c₂ =>
      have hpass : s.ackPasses c sndNxt := by
        by_contra hnot
        rw [← hpasses, ← rxAck_eq_none_iff, ha] at hnot
        cases hnot
      have h₂ := h₁.trans (sameRx_rxAck ha)
      have h₃ : SameRx c (if decide (isSndFull c₁) = true ∧ ¬ isSndFull (rxSndWnd c₂ s) then
          { rxSndWnd c₂ s with tx := { (rxSndWnd c₂ s).tx with wq := [] } }
          else rxSndWnd c₂ s) := by
        have h := h₂.trans (sameRx_rxSndWnd c₂ s)
        split
        exacts [⟨h.side, h.state⟩, h]
      dsimp only
      generalize (if decide (isSndFull c₁) = true ∧ ¬ isSndFull (rxSndWnd c₂ s) then
          { rxSndWnd c₂ s with tx := { (rxSndWnd c₂ s).tx with wq := [] } }
          else rxSndWnd c₂ s) = c₃ at h₃
      obtain ⟨c₄, closed, e₄, hside₄, hmove, hfw⟩ := rxCloseStep_spec c₃ sndNxt io.now
      have hside : c₄.rxSide = c.rxSide := hside₄.trans h₃.side
      have hmove' : AckMove c.state c₄.state := h₃.state ▸ hmove
      have htakes := hmove'.takesText_eq hst
      have hok : c₄.RxOk := hc.of_same hside hmove'
      rw [e₄]
      change ∃ r, (if closed = true then _ else _) = _ ∧ _
      cases closed with
      | true =>
          have hlast := lastAck_of_rxCloseStep e₄
          rw [h₃.state] at hlast
          refine ⟨_, rfl, .inr ⟨fun h => ?_, hside, hmove'⟩⟩
          exact absurd h.1 (by rw [hlast]; decide)
      | false =>
          rw [if_neg (by simp)]
          have hrcv : c₄.rcv = c.rcv := congrArg RxSide.rcv hside
          obtain ⟨c₅, drop, ack, e₅, hst₅, hsnd₅, htext⟩ :=
            rxTextStep_spec (c := c₄) io.now hs hok (hrcv ▸ hacc)
          have hsyn : c₅.state ≠ .synReceived := by
            rw [hst₅]
            intro h
            rw [h] at hmove'
            generalize c.state = st at hst hmove'
            cases hmove'
            exact absurd hst (by decide)
          obtain ⟨c₆, ack', e₆, hside₆, hst₆⟩ := rxFinStep_spec s
            io.now hsyn (fun h => by rw [hsnd₅]; exact hfw (hst₅ ▸ h))
          rw [e₅]
          change ∃ r, (rxFinStep c₅ s sndNxt io.now >>= _) = _ ∧ _
          rw [e₆]
          refine ⟨_, rfl, ?_⟩
          rcases htext with ⟨hsame, hno⟩ | ⟨x, used, wake, hpos, htake, hx, hwoken, ho, hins⟩
          · rw [htakes] at hno
            refine .inr ⟨fun h => hno ⟨h.2.1, h.1⟩, (hside₆.trans hsame).trans hside, ?_⟩
            change AckMove c.state c₆.state
            have hfin : c₆.state = c₄.state := by
              rw [hst₆, hst₅]
              split
              · rename_i hf
                have hpos : 0 < s.len.toNat := by rw [hs.len_eq, hf]; simp
                have hnt : c₄.state.takesText ≠ true := fun h => hno ⟨hpos, htakes ▸ h⟩
                cases hc4 : c₄.state <;> simp_all [TcpState.afterFin, TcpState.takesText]
              · rfl
            rw [hfin]
            exact hmove'
          · refine .inl ⟨⟨htakes ▸ htake, hpos, hpass⟩, ?_⟩
            have hrx : c₄.rx = c.rx := congrArg RxSide.rx hside
            rw [hrcv, hrx] at hins
            refine .mk hmove' htake hpos hacc (hside ▸ hx) ho (hside₆.trans hwoken) ?_ hins
            change c₆.state = _
            rw [hst₆, hst₅]

/-- The steps from the acknowledgement on. -/
theorem rxEstablished_spec {c : Conn} {s : Segment} (sndNxt : Seq) (io : Io) (hs : s.WellFormed)
    (hc : c.RxOk) (hacc : isAcceptable c.rcv s.len s.seq) (hst : TcpState.established ≤ c.state) :
    ∃ r, rxEstablished c s sndNxt io = .ok r ∧ RxEffect s c r.conn := by
  obtain ⟨r, he, ⟨-, htook⟩ | ⟨-, hside, hmove⟩⟩ := rxEstablished_outcome sndNxt io hs hc hacc hst
  · obtain ⟨h₁, h₂, h₃, h₄, h₅, h₆, h₇, h₈, -⟩ := htook
    exact ⟨r, he, .text h₁ h₂ h₃ h₄ h₅ h₆ h₇ h₈⟩
  · exact ⟨r, he, .quiet hside hmove⟩

theorem NoText.of_fail {s : Segment} {c c₁ c' : Conn} {now : Usec}
    (h₁ : SameRx c c₁) (h : tcpConnFail c₁ eConnReset now = .ok c') : NoText s c c' := by
  obtain ⟨hst, hside⟩ := tcpConnFail_spec h
  exact .reset hst (h₁.side ▸ hside)

theorem NoText.of_same {s : Segment} {c c' : Conn} (h : SameRx c c') : NoText s c c' :=
  .quiet h.side (h.state ▸ .same)

/-- The SYN_SENT branch. -/
theorem rxSynSent_spec {c : Conn} (s : Segment) (sndNxt : Seq) (io : Io)
    (hst : c.state = .synSent) :
    ∃ r, rxSynSent c s sndNxt io = .ok r ∧ NoText s c r.conn := by
  rw [rxSynSent]
  split
  · exact ⟨_, rfl, .of_same ((SameRx.refl c).sendRst false s io)⟩
  split
  · obtain ⟨c', h'⟩ := tcpConnFail_ok c eConnReset io.now
    rw [h']
    exact ⟨_, rfl, .of_fail (SameRx.refl c) h'⟩
  split
  · exact ⟨_, rfl, .of_same (SameRx.refl c)⟩
  split
  · have h₁ : ∀ d : Conn, SameRx d
        (if s.flags.ack then tcpConnAck { d with snd := { d.snd with una := s.ack } } else d) := by
      intro d
      split
      · refine SameRx.tcpConnAck ?_
        exact ⟨rfl, rfl⟩
      · exact SameRx.refl d
    have h₂ := h₁ { c with rcv := { c.rcv with nxt := s.seq + 1, irs := s.seq } }
    dsimp only
    generalize (if s.flags.ack then tcpConnAck _ else _) = d at h₂ ⊢
    have hd : d.state = .synSent := h₂.state.trans hst
    have hside : d.rxSide =
        { c.rxSide with rcv := { c.rcv with nxt := s.seq + 1, irs := s.seq } } := h₂.side
    split
    · have hlt : ({ d with snd := { d.snd with wnd := sndWndOf s.win, wl1 := s.seq, wl2 := s.ack } }
          : Conn).state < .established := by
        change d.state < _
        rw [hd]
        decide
      obtain ⟨c', h'⟩ := tcpConnSetState_ok io.now hlt
      obtain ⟨hs, hst'⟩ := tcpConnSetState_spec h'
      rw [h']
      exact ⟨_, rfl, .syn hst (by change c'.state ≤ _; rw [hst']; decide) (hs.trans hside)⟩
    · have h₃ := (SameRx.refl d).tcpTxCtl { syn := true, ack := true } io
      generalize tcpTxCtl d { syn := true, ack := true } io = r at h₃ ⊢
      obtain ⟨e, ret⟩ := r
      dsimp only at h₃ ⊢
      split
      · refine ⟨_, rfl, .syn hst ?_ (h₃.side.trans hside)⟩
        change e.state ≤ _
        rw [h₃.state, hd]
        decide
      · obtain ⟨c', h'⟩ := tcpConnSetState_ok io.now
          (show e.state < .synReceived by rw [h₃.state, hd]; decide)
        obtain ⟨hs, hst'⟩ := tcpConnSetState_spec h'
        rw [h']
        exact ⟨_, rfl, .syn hst (by change c'.state ≤ _; rw [hst']; decide)
          (hs.trans (h₃.side.trans hside))⟩
  · exact ⟨_, rfl, .of_same (SameRx.refl c)⟩

/-- In ESTABLISHED, reached from SYN_RECEIVED, the text of a segment is processed as from there. -/
theorem TookText.of_opened {s : Segment} {c c₁ c' : Conn} (hside : c₁.rxSide = c.rxSide)
    (hst : c.state = .synReceived) (hst₁ : c₁.state = .established) (h : TookText s c₁ c') :
    TookText s c c' := by
  obtain ⟨h₁, h₂, h₃, h₄, h₅, h₆, h₇, h₈, h₉⟩ := h
  have hrx : c₁.rx = c.rx := congrArg RxSide.rx hside
  have hrcv : c₁.rcv = c.rcv := congrArg RxSide.rcv hside
  rw [hst₁] at h₁
  cases h₁
  rw [hrcv, hrx] at h₉
  exact .mk (by rw [hst]; exact .established) h₂ h₃ (hrcv ▸ h₄) (hside ▸ h₅) h₆ h₇ h₈ h₉

theorem tcpRxConnBody_outcome {c : Conn} {s : Segment} (sndNxt : Seq) (io : Io)
    (hs : s.WellFormed) (hc : c.RxOk) :
    ∃ r, tcpRxConnBody c s sndNxt io = .ok r ∧ RxOutcome s sndNxt c r.conn := by
  rw [tcpRxConnBody]
  split
  · rename_i hst
    refine ⟨_, rfl, .other ?_ ?_⟩
    · rintro ⟨-, -, -, -, -, h⟩
      simp [hst, TcpState.takesText] at h
    · dsimp only
      split
      · exact .of_same (SameRx.refl c)
      · exact .of_same ((SameRx.refl c).sendRst _ _ _)
  split
  · rename_i hst
    obtain ⟨r, he, hno⟩ := rxSynSent_spec s sndNxt io hst
    refine ⟨r, he, .other ?_ hno⟩
    rintro ⟨-, -, -, -, -, h⟩
    simp [hst, TcpState.takesText] at h
  rename_i hsent
  split
  · rename_i hacc
    exact ⟨_, rfl, .other (fun h => hacc h.1) (.of_same (SameRx.refl c))⟩
  rename_i hacc
  rw [not_not] at hacc
  split
  · rename_i hrst
    obtain ⟨c', h'⟩ := tcpConnFail_ok c eConnReset io.now
    rw [h']
    exact ⟨_, rfl, .other (fun h => by simp [h.2.1] at hrst) (.of_fail (SameRx.refl c) h')⟩
  rename_i hrst
  split
  · rename_i hsyn
    obtain ⟨c', h'⟩ := tcpConnFail_ok (sendRst c s.flags.ack s io) eConnReset io.now
    rw [h']
    exact ⟨_, rfl, .other (fun h => by simp [h.2.2.1] at hsyn)
      (.of_fail ((SameRx.refl c).sendRst _ _ _) h')⟩
  rename_i hsyn
  split
  · rename_i hack
    exact ⟨_, rfl, .other (fun h => hack h.2.2.2.1) (.of_same (SameRx.refl c))⟩
  rename_i hack
  rw [not_not] at hack
  rw [Bool.not_eq_true] at hrst hsyn
  split
  · rename_i hst
    split
    · rename_i hacks
      have hlt : ({ c with snd := { c.snd with wnd := sndWndOf s.win, wl1 := s.seq, wl2 := s.ack } }
          : Conn).state < .established := by
        change c.state < _
        rw [hst]
        decide
      obtain ⟨c₁, h₁⟩ := tcpConnSetState_ok io.now hlt
      obtain ⟨hside, hst₁⟩ := tcpConnSetState_spec h₁
      have hside' : c₁.rxSide = c.rxSide := hside
      have hmove : AckMove c.state c₁.state := by rw [hst, hst₁]; exact .established
      have hrcv : c₁.rcv = c.rcv := congrArg RxSide.rcv hside'
      have huna : c₁.snd.una = c.snd.una := by rw [snd_tcpConnSetState h₁]
      obtain ⟨r, he, hr⟩ := rxEstablished_outcome (c := c₁) sndNxt io hs
        (hc.of_same hside' hmove) (hrcv ▸ hacc) (by rw [hst₁]; decide)
      have hpass : s.ackPasses c₁ sndNxt := .inl (by rw [huna]; exact hacks)
      refine ⟨r, bind_eq_ok.mpr ⟨c₁, h₁, he⟩, ?_⟩
      rcases hr with ⟨⟨-, hpos, -⟩, htook⟩ | ⟨hno, hsame, hmove₁⟩
      · exact .text ⟨hacc, hrst, hsyn, hack, hpos, .inr ⟨hst, hacks⟩⟩
          (htook.of_opened hside' hst hst₁)
      · refine .other (fun h => hno ⟨by rw [hst₁]; rfl, h.2.2.2.2.1, hpass⟩)
          (.quiet (hsame.trans hside') ?_)
        -- from ESTABLISHED the acknowledgement step makes no further move
        rw [hst₁] at hmove₁
        rw [hst]
        generalize r.conn.state = st at hmove₁
        cases hmove₁
        exact .established
    · rename_i hacks
      refine ⟨_, rfl, .other ?_ (.of_same ((SameRx.refl c).sendRst true s io))⟩
      rintro ⟨-, -, -, -, -, ⟨h, -⟩ | ⟨-, h⟩⟩
      · exact absurd h (by rw [hst]; decide)
      · exact hacks h
  · rename_i hrecv
    have hest : TcpState.established ≤ c.state := by
      cases hst : c.state <;> first | exact absurd hst ‹_› | decide
    obtain ⟨r, he, ⟨⟨htake, hpos, hpass⟩, htook⟩ | ⟨hno, hsame, hmove⟩⟩ :=
      rxEstablished_outcome sndNxt io hs hc hacc hest
    · exact ⟨r, he, .text ⟨hacc, hrst, hsyn, hack, hpos, .inl ⟨htake, hpass⟩⟩ htook⟩
    · refine ⟨r, he, .other ?_ (.quiet hsame hmove)⟩
      rintro ⟨-, -, -, -, hpos, ⟨htake, hpass⟩ | ⟨h, -⟩⟩
      · exact hno ⟨htake, hpos, hpass⟩
      · exact hrecv h

/-- **One segment**, by whether `tcp_rx_conn` comes to its text. -/
theorem tcpRxConn_outcome {c : Conn} {s : Segment} (sndNxt : Seq) (io : Io) (hs : s.WellFormed)
    (hc : c.RxOk) : ∃ r, tcpRxConn c s sndNxt io = .ok r ∧ RxOutcome s sndNxt c r.conn := by
  obtain ⟨r, he, hr⟩ := tcpRxConnBody_outcome sndNxt io hs hc
  refine ⟨_, bind_eq_ok.mpr ⟨r, he, rfl⟩, ?_⟩
  cases hr with
  | text hgo htook =>
      obtain ⟨h₁, h₂, h₃, h₄, h₅, h₆, h₇, h₈, h₉⟩ := htook
      exact .text hgo (.mk h₁ h₂ h₃ h₄ h₅ h₆ h₇ h₈ h₉)
  | other hno hr =>
      refine .other hno ?_
      cases hr with
      | quiet h₁ h₂ => exact .quiet h₁ h₂
      | syn h₁ h₂ h₃ => exact .syn h₁ h₂ h₃
      | reset h₁ h₂ => exact .reset h₁ h₂

/-- On a connection that meets `RxOk`, `tcp_rx_conn` faults on no segment and has one of the
effects listed. -/
theorem tcpRxConn_spec {c : Conn} {s : Segment} (sndNxt : Seq) (io : Io) (hs : s.WellFormed)
    (hc : c.RxOk) : ∃ r, tcpRxConn c s sndNxt io = .ok r ∧ RxEffect s c r.conn := by
  obtain ⟨r, he, hr⟩ := tcpRxConn_outcome sndNxt io hs hc
  exact ⟨r, he, hr.effect⟩

end Skyloft
