import Skyloft.Net.Tiles

/-!
# The handshake

How a connection gets from SYN_SENT or SYN_RECEIVED to ESTABLISHED.  Up to then
`snd_una` stays at `iss`, and only an acknowledgement takes the connection there:
`Opening` has one constructor for each thing a step can do, and `sysStep_opening`
says that every step of every run is one of them.

SYN_SENT asks for an acknowledgement behind `iss`.  SYN_RECEIVED asks for one that
is not in front of `snd_una`, which is still `iss`, and so takes one that does not
cover the SYN.

## Main definitions

* `Opening`, `sysStep_opening` — the handshake in one step.
* `Sys.Dialling` — the invariant: the SYN is not acknowledged before the connection
  is established.
* `established_syn_acked` — the result.
-/

namespace Skyloft

open Run Serial

/-- What a step does to the handshake. -/
inductive Opening (s : Sys) (e : Event) (s' : Sys) : Prop
  /-- The connection is not established, and nothing is acknowledged. -/
  | early : s.conn.state < .established → s'.conn.state < .established →
      s'.conn.snd.una = s.conn.snd.una → Opening s e s'
  /-- The connection closes. -/
  | closed : s'.conn.state = .closed → Opening s e s'
  /-- An acknowledgement establishes the connection. -/
  | ack {f : Frame} {sndNxt : Seq} {io : Io} {seg : Segment} : e = .rx f sndNxt io →
      tcpRxParse f = .ok (some seg) → s.conn.state < .established → Acks s.conn seg sndNxt →
      (s.conn.state = .synSent → wrapsGt seg.ack s.conn.snd.iss) →
      s'.conn.snd.una = seg.ack → .established ≤ s'.conn.state → Opening s e s'
  /-- The connection is established already. -/
  | late : .established ≤ s.conn.state → Opening s e s'

theorem TcpState.lt_established_iff {st : TcpState} :
    st < .established ↔ st = .synSent ∨ st = .synReceived := by
  cases st <;> decide

/-! ## Segments -/

theorem Segment.WellFormed.of_parse {f : Frame} {seg : Segment}
    (h : tcpRxParse f = .ok (some seg)) : seg.WellFormed := by
  obtain ⟨o, ho, hwf⟩ := tcpRxParse_spec f
  cases h.symm.trans ho
  exact (hwf seg rfl).1

/-- How a segment leaves a connection that is not established. -/
def OpenEffect (c : Conn) (s : Segment) (sndNxt : Seq) (c' : Conn) : Prop :=
  (c'.state < .established ∧ c'.snd.una = c.snd.una) ∨ c'.state = .closed ∨
    (Acks c s sndNxt ∧ (c.state = .synSent → wrapsGt s.ack c.snd.iss) ∧ c'.snd.una = s.ack ∧
      .established ≤ c'.state)

theorem OpenEffect.of_same {c c' : Conn} {s : Segment} {sndNxt : Seq}
    (hst : c.state < .established) (hrx : SameRx c c') (htx : c'.txSide = c.txSide) :
    OpenEffect c s sndNxt c' := by
  refine .inl ⟨by rw [hrx.state]; exact hst, ?_⟩
  exact congrArg (fun x : TxSide => x.snd.una) htx

/-- SYN_SENT is left for ESTABLISHED on an acknowledgement behind `iss`. -/
theorem rxSynSent_opening {c : Conn} {s : Segment} {sndNxt : Seq} {io : Io} {r : RxOut}
    (hst : c.state = .synSent) (hsyn : c.snd.una = c.snd.iss)
    (h : rxSynSent c s sndNxt io = .ok r) : OpenEffect c s sndNxt r.conn := by
  have hearly : c.state < .established := by rw [hst]; decide
  rw [rxSynSent] at h
  split at h
  · cases h
    exact .of_same hearly ((SameRx.refl c).sendRst false s io) (txSide_sendRst _ _ _ _)
  rename_i hack
  split at h
  · obtain ⟨c₁, h₁, h⟩ := bind_eq_ok.mp h
    cases h
    exact .inr (.inl (tcpConnFail_spec h₁).1)
  split at h
  · cases h
    exact .of_same hearly (SameRx.refl c) rfl
  split at h
  · cases ha : s.flags.ack with
    | true =>
        simp only [ha, true_and, if_true, not_or] at hack h
        have hgt : wrapsGt s.ack c.snd.iss := wrapsGt_of_not_wrapsLte hack.1
        have hacks : Acks c s sndNxt :=
          ⟨ha, hsyn ▸ wrapsLte_of_wrapsGt hgt, wrapsLte_of_not_wrapsGt hack.2⟩
        generalize hc₁ : tcpConnAck _ = c₁ at h
        have hsnd : c₁.snd = { c.snd with una := s.ack } := by
          rw [show c₁.snd = c₁.txSide.snd from rfl, ← hc₁, txSide_tcpConnAck]
          simp [Conn.txSide]
        rw [if_pos (by rw [hsnd]; exact hgt)] at h
        obtain ⟨c₂, h₂, h⟩ := bind_eq_ok.mp h
        cases h
        refine .inr (.inr ⟨hacks, fun _ => hgt, ?_, ?_⟩)
        · have hside := congrArg (fun x : TxSide => x.snd.una) (txSide_tcpConnSetState h₂)
          exact hside.trans (congrArg SndVars.una hsnd)
        · rw [(tcpConnSetState_spec h₂).2]
          exact Nat.le_refl _
    | false =>
        -- both ends opened the connection: the SYN is answered and stays unacknowledged
        simp only [ha, Bool.false_eq_true, if_false] at h
        rw [if_neg (by rw [hsyn]; simp [wrapsGt_iff])] at h
        generalize hc₁ : ({ c with rcv := _ } : Conn) = c₁ at h
        have hctl := txSide_tcpTxCtl c₁ { syn := true, ack := true } io
        have hrx := (SameRx.refl c₁).tcpTxCtl { syn := true, ack := true } io
        generalize tcpTxCtl c₁ { syn := true, ack := true } io = r₁ at h hctl hrx
        obtain ⟨c₂, ret⟩ := r₁
        have huna : c₂.snd.una = c.snd.una := by
          have hside : c₂.txSide.snd.una = c₁.txSide.snd.una := by
            rw [show c₂.txSide = _ from hctl]
            split <;> rfl
          exact hside.trans (by rw [← hc₁]; rfl)
        dsimp only at h
        split at h
        · cases h
          refine .inl ⟨?_, huna⟩
          rw [hrx.state, ← hc₁]
          exact hearly
        · obtain ⟨c₃, h₃, h⟩ := bind_eq_ok.mp h
          cases h
          refine .inl ⟨by rw [(tcpConnSetState_spec h₃).2]; decide, ?_⟩
          exact (congrArg (fun x : TxSide => x.snd.una) (txSide_tcpConnSetState h₃)).trans huna
  · cases h
    exact .of_same hearly (SameRx.refl c) rfl

/-- **A segment on a connection that is not established** leaves it so with the same
`snd_una`, closes it, or establishes it with an acknowledgement. -/
theorem tcpRxConn_opening {c : Conn} {s : Segment} {sndNxt : Seq} {io : Io} {r : RxOut}
    (hwf : s.WellFormed) (hok : c.RxOk) (hst : c.state < .established)
    (hsyn : c.state = .synSent → c.snd.una = c.snd.iss)
    (h : tcpRxConn c s sndNxt io = .ok r) : OpenEffect c s sndNxt r.conn := by
  obtain ⟨r, h₁, h⟩ := bind_eq_ok.mp h
  cases h
  change OpenEffect c s sndNxt r.conn
  rw [tcpRxConnBody] at h₁
  split at h₁
  · rename_i hcl
    rw [hcl] at hst
    exact absurd hst (by decide)
  split at h₁
  · rename_i hsent
    exact rxSynSent_opening hsent (hsyn hsent) h₁
  rename_i hsent
  split at h₁
  · cases h₁
    exact .of_same hst (SameRx.refl c) rfl
  rename_i hacc
  rw [not_not] at hacc
  split at h₁
  · obtain ⟨c₁, h₂, h₁⟩ := bind_eq_ok.mp h₁
    cases h₁
    exact .inr (.inl (tcpConnFail_spec h₂).1)
  split at h₁
  · obtain ⟨c₁, h₂, h₁⟩ := bind_eq_ok.mp h₁
    cases h₁
    exact .inr (.inl (tcpConnFail_spec h₂).1)
  split at h₁
  · cases h₁
    exact .of_same hst (SameRx.refl c) rfl
  rename_i hack
  rw [not_not] at hack
  split at h₁
  · rename_i hrecv
    split at h₁
    · rename_i hle
      obtain ⟨c₁, h₂, h₁⟩ := bind_eq_ok.mp h₁
      have hside : c₁.txSide = c.txSide.withWnd (sndWndOf s.win) s.seq s.ack :=
        (txSide_tcpConnSetState h₂).trans rfl
      have huna : c₁.snd.una = c.snd.una := congrArg (fun x : TxSide => x.snd.una) hside
      obtain ⟨x, wnd, wl1, wl2, hx, -, hr⟩ := rxEstablished_txSide h₁
      rcases hx with ⟨hn, -⟩ | ⟨-, -, rfl⟩
      · rw [huna] at hn
        exact absurd hle hn
      · refine .inr (.inr ⟨⟨hack, hle⟩, fun hs => absurd hs hsent, ?_, ?_⟩)
        · change r.conn.txSide.snd.una = _
          rw [hr]
          simp [TxSide.withWnd, TxSide.acked]
        · obtain ⟨hrx, hst₁⟩ := tcpConnSetState_spec h₂
          have hrx' : c₁.rxSide = c.rxSide := hrx
          have hok₁ : c₁.RxOk := hok.of_same hrx' (by rw [hrecv, hst₁]; exact .established)
          have hrcv : c₁.rcv = c.rcv := congrArg RxSide.rcv hrx'
          obtain ⟨r', hr', heff⟩ := rxEstablished_spec sndNxt io hwf hok₁ (hrcv ▸ hacc)
            (by rw [hst₁]; exact Nat.le_refl _)
          cases h₁.symm.trans hr'
          exact hst₁ ▸ heff.state_le
    · cases h₁
      exact .of_same hst ((SameRx.refl c).sendRst true s io) (txSide_sendRst _ _ _ _)
  · rename_i hrecv
    exact absurd (TcpState.lt_established_iff.mp hst) (by simp [hsent, hrecv])

/-! ## Steps -/

/-- Before the connection is established its SYN is not acknowledged. -/
def Sys.Dialling (s : Sys) : Prop := s.conn.state < .established → s.conn.snd.una = s.conn.snd.iss

theorem Sys.Dialling.synSent {s : Sys} (h : s.Dialling) (hst : s.conn.state = .synSent) :
    s.conn.snd.una = s.conn.snd.iss := h (by rw [hst]; decide)

/-- The application does not establish a connection. -/
theorem AppMove.early {st st' : TcpState} (h : AppMove st st') (hst : st < .established) :
    st' = st := by
  cases h with
  | shut h =>
      cases h with
      | same => rfl
      | finWait1 | lastAck => exact absurd hst (by decide)
  | expire => exact absurd hst (by decide)

/-- The connection `c'` differs from `c` in `snd_nxt` and in what is queued. -/
structure SameSend (c c' : Conn) : Prop where
  snd : ∃ nxt, c'.snd = { c.snd with nxt := nxt }
  exclusive : c'.tx.exclusive = c.tx.exclusive
  closed : c'.tx.closed = c.tx.closed

/-- The segmenter moves `snd_nxt` and no other send variable. -/
theorem tcpTxSend_sameSend {c c' : Conn} {buf : List Byte} {push : Bool} {io : Io} {ret : ℤ}
    (h : tcpTxSend c buf push io = .ok (c', ret)) : SameSend c c' := by
  have hframe := txFrame_tcpTxSend h
  have hsnd : { c'.snd with nxt := 0 } = { c.snd with nxt := 0 } := congrArg Conn.snd hframe
  have hexcl : c'.txFrame.tx.exclusive = c.txFrame.tx.exclusive := by rw [hframe]
  have hcl : c'.txFrame.tx.closed = c.txFrame.tx.closed := by rw [hframe]
  refine ⟨⟨c'.snd.nxt, ?_⟩, hexcl, hcl⟩
  exact congrArg (fun v : SndVars => { v with nxt := c'.snd.nxt }) hsnd

/-- What a segment does to the send variables. -/
theorem TxEffect.snd {c c' : Conn} {seg : Segment} {sndNxt : Seq} (h : TxEffect seg sndNxt c c') :
    c'.snd.iss = c.snd.iss ∧
      (c'.snd.una = c.snd.una ∨ (Acks c seg sndNxt ∧ c'.snd.una = seg.ack)) := by
  change c'.txSide.snd.iss = _ ∧ (c'.txSide.snd.una = _ ∨ (_ ∧ c'.txSide.snd.una = _))
  cases h with
  | quiet hside | fail _ hside | syn _ hside =>
      rw [hside]
      exact ⟨rfl, .inl rfl⟩
  | ack hx _ hside _ =>
      rw [hside]
      rcases hx with rfl | ⟨hacks, rfl⟩
      · exact ⟨rfl, .inl rfl⟩
      · refine ⟨?_, .inr ⟨hacks, ?_⟩⟩ <;> simp [TxSide.withWnd, TxSide.acked, Conn.txSide]

/-- **The send variables in one step**: `iss` never changes, and only an
acknowledgement moves `snd_una`. -/
theorem TxMove.snd {s s' : Sys} {e : Event} (h : TxMove s e s') :
    s'.conn.snd.iss = s.conn.snd.iss ∧
      (s'.conn.snd.una = s.conn.snd.una ∨ ∃ f sndNxt io seg, e = .rx f sndNxt io ∧
        tcpRxParse f = .ok (some seg) ∧ Acks s.conn seg sndNxt ∧ s'.conn.snd.una = seg.ack) := by
  have hsame : ∀ {nxt : Seq}, s'.conn.snd = { s.conn.snd with nxt := nxt } →
      s'.conn.snd.iss = s.conn.snd.iss ∧ s'.conn.snd.una = s.conn.snd.una := by
    intro nxt hsnd
    rw [hsnd]
    exact ⟨rfl, rfl⟩
  cases h with
  | inert hside _ | fail _ hside _ =>
      exact (hsame (congrArg TxSide.snd hside)).imp id .inl
  | segment hparse heff _ =>
      refine heff.snd.imp id (Or.imp id fun ⟨hacks, huna⟩ => ?_)
      exact ⟨_, _, _, _, rfl, hparse, hacks, huna⟩
  | fin _ _ _ hside _ => exact (hsame (congrArg TxSide.snd hside)).imp id .inl
  | finErr _ _ _ hside _ =>
      rcases hside with hside | ⟨-, hside⟩
      · exact (hsame (congrArg TxSide.snd hside)).imp id .inl
      · exact (hsame (congrArg TxSide.snd hside)).imp id .inl
  | lock | lockRetransmit | endv => exact ⟨rfl, .inl rfl⟩
  | send _ hsend =>
      obtain ⟨nxt, hsnd⟩ := (tcpTxSend_sameSend hsend).snd
      exact (hsame hsnd).imp id .inl
  | sendv _ _ hsend _ =>
      obtain ⟨nxt, hsnd⟩ := (tcpTxSend_sameSend hsend).snd
      exact (hsame hsnd).imp id .inl
  | resend _ hre =>
      obtain ⟨txq, -, hside⟩ := txSide_tcpTxRetransmit hre
      exact (hsame (congrArg TxSide.snd hside)).imp id .inl
  | unlock _ _ hside _ =>
      exact (hsame ((congrArg TxSide.snd hside).trans (TxSide.snd_unlocked _ _))).imp id .inl

/-- Outside the ingress path the handshake makes no progress. -/
theorem RxMove.early {s s' : Sys} {e : Event} (h : RxMove s e s')
    (hrx : ∀ f sndNxt io, e ≠ .rx f sndNxt io) (hst : s.conn.state < .established) :
    s'.conn.state < .established ∨ s'.conn.state = .closed := by
  cases h with
  | inert _ happ _ | shut _ _ happ _ =>
      rw [happ.early hst]
      exact .inl hst
  | fail _ hcl _ _ => exact .inr hcl
  | segment => exact absurd rfl (hrx _ _ _)
  | pop _ _ _ _ _ _ _ hsame =>
      change _ = s.conn.state at hsame
      exact .inl (by rw [Sys.conn_move, hsame]; exact hst)
  | copyPart _ _ hcopy =>
      obtain ⟨rxq, rfl⟩ := tcpReadCopy_eq hcopy
      exact .inl hst
  | start | sleep | closed | copy | finish => exact .inl hst

/-- **Every step of the handshake** is one of these. -/
theorem sysStep_opening {s s' : Sys} {e : Event} (hrx : s.RxInv) (hd : s.Dialling)
    (h : sysStep s e = .ok s') : Opening s e s' := by
  by_cases hst : s.conn.state < .established
  swap
  · exact .late (Nat.le_of_not_lt hst)
  by_cases he : ∃ f sndNxt io, e = .rx f sndNxt io
  · obtain ⟨f, sndNxt, io, rfl⟩ := he
    obtain ⟨o, h₁, h⟩ := bind_eq_ok.mp h
    cases o with
    | none =>
        cases h
        exact .early hst hst rfl
    | some seg =>
        obtain ⟨r, h₂, h⟩ := bind_eq_ok.mp h
        cases h
        rcases tcpRxConn_opening (.of_parse h₁) hrx.rxOk hst hd.synSent h₂ with
          ⟨hst', huna⟩ | hcl | ⟨hacks, hgt, huna, hest⟩
        · exact .early hst hst' huna
        · exact .closed hcl
        · exact .ack rfl h₁ hst hacks hgt huna hest
  · have hne : ∀ f sndNxt io, e ≠ .rx f sndNxt io := by
      intro f sndNxt io heq
      exact he ⟨f, sndNxt, io, heq⟩
    rcases (sysStep_rxMove hrx.rxOk h).early hne hst with hst' | hcl
    · rcases (sysStep_txMove hd.synSent h).snd.2 with huna | ⟨f, sndNxt, io, -, heq, -⟩
      · exact .early hst hst' huna
      · exact absurd heq (hne f sndNxt io)
    · exact .closed hcl

/-- What holds in every state of every run: the SYN is not acknowledged before the
connection is established. -/
theorem Sys.Dialling.step {s s' : Sys} {e : Event} (hrx : s.RxInv) (hd : s.Dialling)
    (h : sysStep s e = .ok s') : s'.Dialling ∧ s'.conn.snd.iss = s.conn.snd.iss := by
  have hiss := (sysStep_txMove hd.synSent h).snd.1
  refine ⟨fun hst' => ?_, hiss⟩
  have hle : s.conn.state < .established :=
    Nat.lt_of_le_of_lt (sysStep_rxMove hrx.rxOk h).state_le hst'
  cases sysStep_opening hrx hd h with
  | early _ _ huna => rw [huna, hiss, hd hle]
  | closed hcl =>
      rw [hcl] at hst'
      exact absurd hst' (by decide)
  | ack _ _ _ _ _ _ hest => exact absurd hst' (Nat.not_lt.mpr hest)
  | late hst => exact absurd hle (Nat.not_lt.mpr hst)

theorem Sys.Start.dialling {s : Sys} (h : s.Start) : s.Dialling := by
  obtain ⟨iss, hside, -, -⟩ := h.txSide
  intro _
  change s.conn.txSide.snd.una = s.conn.txSide.snd.iss
  rw [hside]
  rfl

/-- The invariant holds in every state of every run, and `iss` is the one drawn at
the start. -/
theorem dialling_of_reach {s₀ s : Sys} {es : List Event} (h₀ : s₀.Start)
    (h : exec sysStep s₀ es = .ok s) : s.Dialling ∧ s.conn.snd.iss = s₀.conn.snd.iss := by
  refine (exec_invariant (G := fun _ _ => True)
    (I := fun s => s.RxInv ∧ s.Dialling ∧ s.conn.snd.iss = s₀.conn.snd.iss) ?_
    ⟨h₀.rxInv, h₀.dialling, rfl⟩ (Along.trivial _ _) h).2
  rintro s e s' ⟨hrx, hd, hiss⟩ - hs
  obtain ⟨hd', hiss'⟩ := hd.step hrx hs
  exact ⟨sysStep_rxInv hrx hs, hd', hiss'.trans hiss⟩

/-! ## The acknowledged SYN -/

/-- The guard: no segment that a connection takes in SYN_RECEIVED acknowledges just
`iss`. -/
def SynAnswered (s : Sys) : Event → Prop
  | .rx f _ _ =>
      match tcpRxParse f with
      | .ok (some seg) =>
          s.conn.state = .synReceived → seg.flags.ack → seg.ack ≠ s.conn.snd.iss
      | _ => True
  | _ => True

instance (s : Sys) : (e : Event) → Decidable (SynAnswered s e)
  | .rx f _ _ => by
      dsimp only [SynAnswered]
      rcases tcpRxParse f with _ | _ | _ <;> infer_instance
  | .call _ _ | .run _ _ | .ackOut _ | .resend _ | .timeouts _ _ _ | .txDone _ | .netErr _ _ =>
      .isTrue trivial

/-- The invariant: `snd_una` is the count behind `iss`, and a connection that was
established and is not closed has a count. -/
structure SynInv (l : TxLog) : Prop where
  rx : l.sys.RxInv
  dialling : l.sys.Dialling
  una : l.sys.conn.snd.una = l.sys.conn.snd.iss + BitVec.ofNat 32 l.acked
  acked : .established ≤ l.sys.conn.state → l.sys.conn.state = .closed ∨ 0 < l.acked

theorem gap_pos {u v : Seq} (h : v ≠ u) : 0 < gap u v := by
  rw [gap, Nat.pos_iff_ne_zero]
  intro hz
  have hzero : v - u = 0 := BitVec.eq_of_toNat_eq hz
  exact h (sub_eq_zero.mp hzero)

namespace SynInv

variable {l l' : TxLog} {e : Event}

/-- An acknowledgement that establishes the connection moves `snd_una`. -/
theorem ack_ne (h : SynInv l) {f : Frame} {sndNxt : Seq} {io : Io} {seg : Segment}
    (hg : SynAnswered l.sys (.rx f sndNxt io)) (hparse : tcpRxParse f = .ok (some seg))
    (hst : l.sys.conn.state < .established) (hacks : Acks l.sys.conn seg sndNxt)
    (hgt : l.sys.conn.state = .synSent → wrapsGt seg.ack l.sys.conn.snd.iss) :
    seg.ack ≠ l.sys.conn.snd.una := by
  rw [h.dialling hst]
  rcases TcpState.lt_established_iff.mp hst with hsent | hrecv
  · intro heq
    have := hgt hsent
    rw [heq, wrapsGt_iff, ahead_self] at this
    omega
  · simp only [SynAnswered, hparse] at hg
    exact hg hrecv hacks.1

theorem step (h : SynInv l) (hg : SynAnswered l.sys e) (hs : txLogStep l e = .ok l') :
    SynInv l' := by
  obtain ⟨s', h₁, h₂⟩ := bind_eq_ok.mp hs
  cases h₂
  obtain ⟨hd', hiss⟩ := h.dialling.step h.rx h₁
  have hle := (sysStep_rxMove h.rx.rxOk h₁).state_le
  refine ⟨sysStep_rxInv h.rx h₁, hd', ?_, fun hst' => ?_⟩
  · change s'.conn.snd.una = s'.conn.snd.iss + BitVec.ofNat 32 (_ + gap _ _)
    rw [hiss, BitVec.ofNat_add, ← BitVec.add_assoc, ← h.una, add_gap]
  · change s'.conn.state = .closed ∨ 0 < l.acked + gap l.sys.conn.snd.una s'.conn.snd.una
    cases sysStep_opening h.rx h.dialling h₁ with
    | early _ hearly _ => exact absurd hearly (Nat.not_lt.mpr hst')
    | closed hcl => exact .inl hcl
    | ack heq hparse hst hacks hgt huna _ =>
        subst heq
        have hpos := gap_pos (h.ack_ne hg hparse hst hacks hgt)
        rw [huna]
        exact .inr (by omega)
    | late hst =>
        rcases h.acked hst with hcl | hpos
        · rw [hcl] at hle
          left
          revert hle
          cases s'.conn.state <;> decide
        · exact .inr (by omega)

theorem of_start {s : Sys} (h : s.Start) : SynInv (.start s) := by
  obtain ⟨iss, -, hearly, -⟩ := h.txSide
  refine ⟨h.rxInv, h.dialling, (add_gap _ _).symm, fun hst => ?_⟩
  exact absurd hearly (Nat.not_lt.mpr hst)

end SynInv

/-- **An established connection has its SYN acknowledged.**  In every state of every
guarded run, over any initial sequence number and any segments, calls and timers: a
connection in ESTABLISHED or a later state other than CLOSED has had sequence
numbers acknowledged, and `snd_una` is that count behind `iss`, which the wrapped
comparison sees as long as the count stays below half the circle. -/
theorem established_syn_acked {s₀ : Sys} {l : TxLog} {es : List Event} (h₀ : s₀.Start)
    (hg : Along txLogStep (fun l e => SynAnswered l.sys e) (.start s₀) es)
    (h : exec txLogStep (.start s₀) es = .ok l) (hst : .established ≤ l.sys.conn.state)
    (hne : l.sys.conn.state ≠ .closed) :
    0 < l.acked ∧ l.sys.conn.snd.una = l.sys.conn.snd.iss + BitVec.ofNat 32 l.acked ∧
      (l.acked < 2 ^ 31 → wrapsGt l.sys.conn.snd.una l.sys.conn.snd.iss) := by
  have hinv : SynInv l :=
    exec_invariant (fun l e l' hi hge hs => hi.step hge hs) (.of_start h₀) hg h
  have hpos : 0 < l.acked := (hinv.acked hst).resolve_left hne
  refine ⟨hpos, hinv.una, fun hlt => ?_⟩
  have hd := ahead_add_add l.sys.conn.snd.iss (m := 0) (n := l.acked) (by omega) (by omega)
  simp only [BitVec.add_zero] at hd
  rw [wrapsGt_iff, hinv.una, hd]
  omega

/-- The handshake with a peer that acknowledges the SYN. -/
theorem established_syn_acked_answered : ∃ l : TxLog,
    exec txLogStep (.start accepted) [.rx (windowFrame 1000) 1 (Io.good 0)] = .ok l ∧
    l.sys.conn.state = .established ∧ 0 < l.acked ∧
    wrapsGt l.sys.conn.snd.una l.sys.conn.snd.iss :=
  have h := exec_final (by decide)
  have hsyn := established_syn_acked accepted_start (by decide) h (by decide)
    (by decide)
  ⟨_, h, by decide, hsyn.1, hsyn.2.2 (by decide)⟩

/-- A segment that acknowledges `iss`, which the SYN is not covered by, establishes
the connection of a listener. -/
theorem established_without_syn_acked : accepted.Start ∧ ∃ s : Sys,
    exec sysStep accepted
      [.rx (Packet.frame ⟨1, 0, { ack := true }, 1000, []⟩) 1 (Io.good 0)] = .ok s ∧
    s.conn.state = .established ∧ s.conn.snd.una = s.conn.snd.iss ∧
    ¬ wrapsGt s.conn.snd.una s.conn.snd.iss :=
  ⟨accepted_start, _, exec_final (by decide), by decide, by decide,
    by decide⟩
end Skyloft
