import Skyloft.Net.RxSafety
import Skyloft.Net.Writers

/-!
# The send side over a run

The sequence numbers of a connection are 32 bits wide, so its history is told in
counts: `a` numbers were acknowledged and `b` were taken since the start, and
`snd_una` and `snd_nxt` are these counts behind `iss`.  `TxInv s a b` says how the
counts, the buffer kept for later, the send window and the tasks that own the send
side hang together, and `TxInv.step` that a step keeps it.

A step has to be guarded: an acknowledgement covers only what was transmitted, and
a FIN finds no buffer that is kept for later.

## Main definitions

* `gap u v` — how many sequence numbers lie between two of them.
* `TxSide.Ok`, `TxInv` — the invariant.
* `Settled`, `TxInv.step` — the guard, and the step lemma.
-/

namespace Skyloft

open Run Serial

/-- The sequence numbers from `u` up to `v`. -/
def gap (u v : Seq) : ℕ := (v - u).toNat

@[simp] theorem gap_self (u : Seq) : gap u u = 0 := by simp [gap]

theorem add_gap (u v : Seq) : u + BitVec.ofNat 32 (gap u v) = v := by
  rw [gap, BitVec.ofNat_toNat, BitVec.setWidth_eq]
  ring

/-- The gap between two offsets from one base. -/
theorem gap_add_add (u : Seq) {m n : ℕ} (hle : m ≤ n) (hlt : n < m + 2 ^ 31) :
    gap (u + BitVec.ofNat 32 m) (u + BitVec.ofNat 32 n) = n - m := by
  have hd : ahead (u + BitVec.ofNat 32 n) (u + BitVec.ofNat 32 m) = (n : ℤ) - m :=
    ahead_add_add u (by omega) (by omega)
  have hnat := toNat_sub_of_ahead_nonneg (a := u + BitVec.ofNat 32 n)
    (b := u + BitVec.ofNat 32 m) (by omega)
  rw [gap]
  omega

theorem gap_add (u : Seq) {n : ℕ} (hn : n < 2 ^ 31) : gap u (u + BitVec.ofNat 32 n) = n := by
  simpa using gap_add_add u (Nat.zero_le n) (by omega)

/-- The window that a writer was given. -/
def Proc.winlen : Proc → Option ℕ
  | .writeSend _ winlen | .writevSend _ winlen _ _ => some winlen
  | _ => none

theorem Proc.holdsTx_of_winlen {p : Proc} {w : ℕ} (h : p.winlen = some w) : p.holdsTx := by
  cases p <;> first | rfl | cases h

/-- The send side of a connection in state `st`, with `a` sequence numbers
acknowledged and `b` taken. -/
structure TxSide.Ok (x : TxSide) (st : TcpState) (a b : ℕ) : Prop where
  una : x.snd.una = x.snd.iss + BitVec.ofNat 32 a
  nxt : x.snd.nxt = x.snd.iss + BitVec.ofNat 32 b
  le : a + x.pendLen ≤ b
  near : b ≤ a + 2 ^ 30
  wnd_le : x.snd.wnd.toNat ≤ 65533
  syn : st = .synSent → a = 0
  early : st < .established → x.pending = none
  pendingEnds : x.PendingEnds
  pendingFits : x.PendingFits

/-- The invariant of the send side. -/
structure TxInv (s : Sys) (a b : ℕ) : Prop where
  side : s.conn.txSide.Ok s.conn.state a b
  owner : ∀ t, (s.procs t).holdsTx → s.conn.tx.exclusive
  unique : ∀ t u, (s.procs t).holdsTx → (s.procs u).holdsTx → t = u
  writer : ∀ t w, (s.procs t).winlen = some w →
    .established ≤ s.conn.state ∧ b + w ≤ a + 2 ^ 16

/-- What is asked of a step: an acknowledgement covers only what was transmitted,
and when a control segment is queued there is no buffer kept for later and there
are fewer than `2 ^ 30` numbers outstanding. -/
def Settled (s : Sys) : Event → Prop
  | .rx f sndNxt _ =>
      match tcpRxParse f with
      | .ok (some seg) =>
          (Acks s.conn seg sndNxt →
            gap s.conn.snd.una seg.ack ≤ gap s.conn.snd.una s.conn.txSide.head) ∧
          (s.conn.state = .synSent → gap s.conn.snd.una s.conn.snd.nxt < 2 ^ 30)
      | _ => True
  | .run t io =>
      s.queuesFin t → io.alloc 0 →
        s.conn.tx.pending = none ∧ gap s.conn.snd.una s.conn.snd.nxt < 2 ^ 30
  | _ => True

instance (s : Sys) : (e : Event) → Decidable (Settled s e)
  | .rx f _ _ => by
      dsimp only [Settled]
      rcases tcpRxParse f with _ | _ | _ <;> infer_instance
  | .run _ _ => inferInstanceAs (Decidable (_ → _ → _ ∧ _))
  | .call _ _ | .ackOut _ | .resend _ | .timeouts _ _ _ | .txDone _ | .netErr _ _ => .isTrue trivial

/-! ## Operations -/

namespace TxSide

variable {x x' : TxSide} {st st' : TcpState} {a b n : ℕ}

theorem pendLen_of_none (h : x.pending = none) : x.pendLen = 0 := by simp [pendLen, h]

theorem Ok.of_state (h : x.Ok st a b) (hst : st ≤ st') : x.Ok st' a b := by
  have hle : st.toNat ≤ st'.toNat := hst
  refine { h with syn := fun hs => h.syn ?_, early := fun hs => h.early ?_ }
  · rw [hs] at hle
    revert hle
    cases st <;> decide
  · exact lt_of_le_of_lt hle hs

/-- Where the transmitted numbers end. -/
theorem Ok.head (h : x.Ok st a b) : x.head = x.snd.iss + BitVec.ofNat 32 (b - x.pendLen) := by
  cases hp : x.pending with
  | none => simpa [TxSide.head, pendLen, hp] using h.nxt
  | some m =>
      have hle := h.le
      have hend := h.pendingEnds m hp
      have hfit := (h.pendingFits m hp).2.2
      have hlen : x.pendLen = m.len := by simp [pendLen, hp]
      have hsplit : BitVec.ofNat 32 b = BitVec.ofNat 32 (b - m.len) + BitVec.ofNat 32 m.len := by
        rw [← BitVec.ofNat_add, Nat.sub_add_cancel (by omega)]
      have hseq : m.segSeq = m.segEnd - BitVec.ofNat 32 m.len := by
        rw [hfit]
        ring
      rw [show x.head = m.segSeq by simp [TxSide.head, hp], hlen, hseq, hend, h.nxt, hsplit]
      ring

theorem Ok.gap_nxt (h : x.Ok st a b) : gap x.snd.una x.snd.nxt = b - a := by
  have hle := h.le
  have hnear := h.near
  rw [h.una, h.nxt, gap_add_add _ (by omega) (by omega)]

theorem Ok.gap_head (h : x.Ok st a b) : gap x.snd.una x.head = b - x.pendLen - a := by
  have hle := h.le
  have hnear := h.near
  rw [h.una, h.head, gap_add_add _ (by omega) (by omega)]

/-- A number behind `snd_una` compares as such. -/
theorem Ok.wrapsGt_add (h : x.Ok st a b) (hlt : a < n) (hn : n ≤ a + 2 ^ 30 + 1) :
    wrapsGt (x.snd.iss + BitVec.ofNat 32 n) x.snd.una := by
  rw [wrapsGt_iff, h.una, ahead_add_add _ (by omega) (by omega)]
  omega

/-- A change that leaves the sequence numbers and the buffer kept for later, or
drops that buffer. -/
theorem Ok.of_snd (h : x.Ok st a b) (hsnd : x'.snd = x.snd)
    (hp : x'.pending = x.pending ∨ x'.pending = none) : x'.Ok st a b := by
  have hlen : x'.pendLen ≤ x.pendLen := by
    rcases hp with hp | hp <;> simp [pendLen, hp]
  have hmem : ∀ m, m ∈ x'.pending → m ∈ x.pending := by
    intro m hm
    rcases hp with hp | hp <;> rw [hp] at hm
    · exact hm
    · cases hm
  have hle := h.le
  refine ⟨?_, ?_, by omega, h.near, ?_, h.syn, fun hs => ?_, fun m hm => ?_, fun m hm => ?_⟩
  · rw [hsnd]; exact h.una
  · rw [hsnd]; exact h.nxt
  · rw [hsnd]; exact h.wnd_le
  · exact hp.elim (fun hp => hp.trans (h.early hs)) id
  · rw [hsnd]; exact h.pendingEnds m (hmem m hm)
  · exact h.pendingFits m (hmem m hm)

theorem Ok.failed (h : x.Ok st a b) : x.failed.Ok st a b := by
  refine h.of_snd rfl ?_
  cases hex : x.exclusive <;> simp [TxSide.failed, hex]

theorem Ok.unlocked (h : x.Ok st a b) (st' : TcpState) : (x.unlocked st').Ok st a b := by
  exact h.of_snd (snd_unlocked x st') (pending_unlocked x st')

theorem sndWndOf_le (win : BitVec 16) : (sndWndOf win).toNat ≤ 65533 := by
  have hlt := win.isLt
  rw [sndWndOf]
  split
  · rw [BitVec.toNat_sub, BitVec.toNat_setWidth]
    change (2 ^ 32 - 2 + win.toNat % 2 ^ 32) % 2 ^ 32 ≤ 65533
    omega
  · simp

theorem Ok.withWnd (h : x.Ok st a b) {wnd : Seq} (hw : wnd.toNat ≤ 65533) (wl1 wl2 : Seq) :
    (x.withWnd wnd wl1 wl2).Ok st a b :=
  ⟨h.una, h.nxt, h.le, h.near, hw, h.syn, h.early, h.pendingEnds, h.pendingFits⟩

theorem Ok.of_withWnd {wnd wl1 wl2 : Seq} (h : (x.withWnd wnd wl1 wl2).Ok st a b)
    (hw : x.snd.wnd.toNat ≤ 65533) : x.Ok st a b :=
  ⟨h.una, h.nxt, h.le, h.near, hw, h.syn, h.early, h.pendingEnds, h.pendingFits⟩

theorem Ok.acked (h : x.Ok st a b) {ack : Seq} (hst : st ≤ st') (hsyn : st' ≠ .synSent)
    (hack : gap x.snd.una ack ≤ gap x.snd.una x.head) :
    (x.acked ack).Ok st' (a + gap x.snd.una ack) b := by
  have hle := h.le
  have hnear := h.near
  have hst := h.of_state hst
  rw [h.gap_head] at hack
  have hlen : (x.acked ack).pendLen = x.pendLen := by simp [TxSide.acked, pendLen]
  refine ⟨?_, ?_, by omega, by omega, ?_, fun hs => absurd hs hsyn, fun hs => ?_, fun m hm => ?_,
    fun m hm => ?_⟩
  · have hadd := add_gap x.snd.una ack
    rw [h.una, BitVec.add_assoc, ← BitVec.ofNat_add, ← h.una] at hadd
    simpa [TxSide.acked] using hadd.symm
  · simpa [TxSide.acked] using h.nxt
  · simpa [TxSide.acked] using h.wnd_le
  · simpa [TxSide.acked] using hst.early hs
  · simp only [TxSide.acked, pending_trimmed] at hm
    simpa [TxSide.acked] using h.pendingEnds m hm
  · simp only [TxSide.acked, pending_trimmed] at hm
    exact h.pendingFits m hm

theorem Ok.queued (h : x.Ok st a b) (hp : x.pending = none) (hlt : gap x.snd.una x.snd.nxt < 2 ^ 30) :
    x.queued.Ok st a (b + 1) := by
  have hle := h.le
  rw [h.gap_nxt] at hlt
  have hlen : x.queued.pendLen = 0 := pendLen_of_none hp
  have hnone : ∀ m, m ∉ x.queued.pending := by
    intro m hm
    change m ∈ x.pending at hm
    rw [hp] at hm
    cases hm
  refine ⟨h.una, ?_, by omega, by omega, h.wnd_le, h.syn, h.early, fun m hm => absurd hm (hnone m),
    fun m hm => absurd hm (hnone m)⟩
  change x.snd.nxt + 1 = x.snd.iss + _
  rw [h.nxt, BitVec.ofNat_add, BitVec.add_assoc]
  rfl

/-- What is kept for later is not longer than what was kept and what is new. -/
theorem parkLen_le (p n : ℕ) (push : Bool) : parkLen p n push ≤ p + n := by
  have hmod := Nat.mod_le (p + n - 1) tcpMss
  rw [parkLen]
  split
  · omega
  · split
    · omega
    · rw [lastLen]
      omega

/-- The send side after the segmenter took `n` bytes. -/
theorem Ok.sent (h : x.Ok st a b) (hs : Sent n x x') (hfit : x'.PendingFits)
    (hst : .established ≤ st) (hn : b + n ≤ a + 2 ^ 16)
    (hp : x'.pending = none ∨ x'.pendLen ≤ x.pendLen + n) : x'.Ok st a (b + n) := by
  have hle := h.le
  have hlen : x'.pendLen ≤ x.pendLen + n := by
    rcases hp with hp | hp
    · simp [pendLen_of_none hp]
    · exact hp
  have hsnd := hs.snd
  refine ⟨?_, ?_, by omega, by omega, ?_, h.syn, fun hs => ?_, hs.pendingEnds, hfit⟩
  · rw [hsnd]
    exact h.una
  · rw [hsnd]
    change x.snd.nxt + BitVec.ofNat 32 n = x.snd.iss + _
    rw [h.nxt, BitVec.add_assoc, ← BitVec.ofNat_add]
  · rw [hsnd]
    exact h.wnd_le
  · have hst' : TcpState.established.toNat ≤ st.toNat := hst
    have hlt : st.toNat < TcpState.established.toNat := hs
    omega

theorem gap_nxt_of_sent (hs : Sent n x x') (hn : n < 2 ^ 31) : gap x.snd.nxt x'.snd.nxt = n := by
  rw [hs.snd]
  exact gap_add x.snd.nxt hn

end TxSide

/-! ## States only move forward -/

theorem TcpState.le_of_ackMove {st st' : TcpState} (h : AckMove st st') : st ≤ st' := by
  cases h <;> first | exact Nat.le_refl _ | decide

theorem TcpState.le_of_appMove {st st' : TcpState} (h : AppMove st st') : st ≤ st' := by
  cases h with
  | shut h => cases h <;> first | exact Nat.le_refl _ | decide
  | expire => decide

theorem TcpState.le_closed (st : TcpState) : st ≤ .closed := by
  cases st <;> decide

theorem TcpState.le_afterFin (st : TcpState) : st ≤ st.afterFin := by
  cases st <;> decide

/-- A segment never takes a connection back to an earlier state. -/
theorem RxEffect.state_le {seg : Segment} {c c' : Conn} (h : RxEffect seg c c') :
    c.state ≤ c'.state := by
  cases h with
  | quiet _ hst => exact TcpState.le_of_ackMove hst
  | syn hst _ _ =>
      rw [hst]
      exact Nat.zero_le _
  | reset hst _ => rw [hst]; exact TcpState.le_closed _
  | text hst _ _ _ _ _ _ hst' =>
      have hle := TcpState.le_of_ackMove hst
      rw [hst']
      split
      · exact Nat.le_trans hle (TcpState.le_afterFin _)
      · exact hle

/-- A step never takes a connection back to an earlier state. -/
theorem RxMove.state_le {s s' : Sys} {e : Event} (h : RxMove s e s') :
    s.conn.state ≤ s'.conn.state := by
  have hrefl : s.conn.state ≤ s.conn.state := Nat.le_refl _
  cases h with
  | inert _ hst _ => exact TcpState.le_of_appMove hst
  | shut _ _ hst _ => exact TcpState.le_of_appMove hst
  | fail _ hst _ _ => rw [hst]; exact TcpState.le_closed _
  | segment _ _ heff _ => exact heff.state_le
  | pop _ _ _ _ _ _ _ hst => exact hst ▸ hrefl
  | copyPart _ _ hcopy =>
      obtain ⟨rxq, rfl⟩ := tcpReadCopy_eq hcopy
      exact hrefl
  | start | sleep | closed | copy | finish => exact hrefl

/-! ## The step lemma -/

namespace TxInv

variable {s s' : Sys} {a b a' b' : ℕ}

/-- The tasks that own the send side did not move, and the window they were given
still fits. -/
theorem of_same (h : TxInv s a b) (hside : s'.conn.txSide.Ok s'.conn.state a' b')
    (hw : SameWriters s s') (hex : s.conn.tx.exclusive → s'.conn.tx.exclusive)
    (hst : s.conn.state ≤ s'.conn.state)
    (hnum : (∃ t w, (s.procs t).winlen = some w) → b' + a ≤ b + a') : TxInv s' a' b' := by
  have hholds : ∀ t, (s'.procs t).holdsTx → s'.procs t = s.procs t := by
    intro t ht
    rcases hw t with h' | ⟨-, h'⟩
    · exact h'
    · rw [h'] at ht
      cases ht
  refine ⟨hside, fun t ht => ?_, fun t u ht hu => ?_, fun t w ht => ?_⟩
  · exact hex (h.owner t (hholds t ht ▸ ht))
  · exact h.unique t u (hholds t ht ▸ ht) (hholds u hu ▸ hu)
  · rw [hholds t (Proc.holdsTx_of_winlen ht)] at ht
    obtain ⟨h₁, h₂⟩ := h.writer t w ht
    have h₃ := hnum ⟨t, w, ht⟩
    exact ⟨Nat.le_trans h₁ hst, by omega⟩

/-- The only task that owns the send side moves, or a task takes it. -/
theorem of_owner {t : Tid} {p : Proc}
    (honly : ∀ u, u ≠ t → (s.procs u).holdsTx = false)
    (hprocs : s'.procs = Function.update s.procs t p)
    (hside : s'.conn.txSide.Ok s'.conn.state a' b') (hex : p.holdsTx → s'.conn.tx.exclusive)
    (hw : ∀ w, p.winlen = some w → .established ≤ s'.conn.state ∧ b' + w ≤ a' + 2 ^ 16) :
    TxInv s' a' b' := by
  have honly' : ∀ u, (s'.procs u).holdsTx → u = t := by
    intro u hu
    by_contra hne
    rw [hprocs, Function.update_of_ne hne, honly u hne] at hu
    cases hu
  have hself : s'.procs t = p := by rw [hprocs, Function.update_self]
  refine ⟨hside, fun u hu => ?_, fun u v hu hv => ?_, fun u w hu => ?_⟩
  · obtain rfl := honly' u hu
    exact hex (hself ▸ hu)
  · rw [honly' u hu, honly' v hv]
  · obtain rfl := honly' u (Proc.holdsTx_of_winlen hu)
    exact hw w (hself ▸ hu)

theorem only_owner (h : TxInv s a b) {t : Tid} (ht : (s.procs t).holdsTx) (u : Tid)
    (hu : u ≠ t) : (s.procs u).holdsTx = false := by
  by_contra hholds
  exact hu (h.unique u t (by simpa using hholds) ht)

theorem no_owner (h : TxInv s a b) (hex : s.conn.tx.exclusive = false) (u : Tid) :
    (s.procs u).holdsTx = false := by
  by_contra hholds
  have := h.owner u (by simpa using hholds)
  rw [hex] at this
  cases this

end TxInv

/-- A segment has no buffer kept for later. -/
theorem TxEffect.pending_ne {c c' : Conn} {seg : Segment} {sndNxt : Seq}
    (h : TxEffect seg sndNxt c c') (hp : c'.tx.pending ≠ none) : c.tx.pending ≠ none := by
  have hp' : c'.txSide.pending ≠ none := hp
  cases h with
  | quiet hside =>
      rw [hside] at hp'
      exact hp'
  | fail _ hside =>
      rw [hside] at hp'
      cases hex : c.tx.exclusive <;> simp_all [TxSide.failed, Conn.txSide]
  | syn _ hside =>
      rw [hside] at hp'
      exact hp'
  | ack hx _ hside _ =>
      rw [hside] at hp'
      rcases hx with rfl | ⟨-, rfl⟩
      · exact hp'
      · simpa [TxSide.withWnd, TxSide.acked, Conn.txSide] using hp'

theorem TxEffect.closed {c c' : Conn} {seg : Segment} {sndNxt : Seq}
    (h : TxEffect seg sndNxt c c') (hc : c.tx.closed) : c'.tx.closed := by
  change c'.txSide.closed = true
  cases h with
  | quiet hside | syn _ hside =>
      rw [hside]
      exact hc
  | fail _ hside =>
      rw [hside]
      rfl
  | ack hx _ hside _ =>
      rw [hside]
      rcases hx with rfl | ⟨-, rfl⟩
      · exact hc
      · simpa [TxSide.withWnd, TxSide.acked, Conn.txSide] using hc

/-- The send side after a segment. -/
theorem TxSide.Ok.effect {c c' : Conn} {seg : Segment} {sndNxt : Seq} {a b : ℕ}
    (h : c.txSide.Ok c.state a b) (heff : TxEffect seg sndNxt c c') (hst : c.state ≤ c'.state)
    (hack : Acks c seg sndNxt → gap c.snd.una seg.ack ≤ gap c.snd.una c.txSide.head)
    (hsyn : c.state = .synSent → gap c.snd.una c.snd.nxt < 2 ^ 30) :
    c'.txSide.Ok c'.state (a + gap c.snd.una c'.snd.una) (b + gap c.snd.nxt c'.snd.nxt) ∧
      c'.tx.exclusive = c.tx.exclusive ∧ (c.state ≠ .synSent → c'.snd.nxt = c.snd.nxt) := by
  cases heff with
  | quiet hside =>
      have hsnd : c'.snd = c.snd := congrArg TxSide.snd hside
      refine ⟨?_, congrArg TxSide.exclusive hside, fun _ => by rw [hsnd]⟩
      rw [hsnd, gap_self, gap_self, hside]
      exact h.of_state hst
  | fail _ hside =>
      have hsnd : c'.snd = c.snd := congrArg TxSide.snd hside
      refine ⟨?_, congrArg TxSide.exclusive hside, fun _ => by rw [hsnd]⟩
      rw [hsnd, gap_self, gap_self, hside]
      exact h.failed.of_state hst
  | syn hs hside =>
      have hsnd : c'.snd = c.txSide.queued.snd := congrArg TxSide.snd hside
      have hgap : gap c.snd.nxt c'.snd.nxt = 1 := by
        rw [hsnd]
        exact gap_add c.snd.nxt (show 1 < 2 ^ 31 by omega)
      refine ⟨?_, congrArg TxSide.exclusive hside, fun hne => absurd hs hne⟩
      rw [hgap, hside, show c'.snd.una = c.snd.una by rw [hsnd]; rfl, gap_self]
      exact (h.queued (h.early (by rw [hs]; decide)) (hsyn hs)).of_state hst
  | @ack x wnd wl1 wl2 hx hwnd hside hs =>
      have hwnd' : wnd.toNat ≤ 65533 := by
        rcases hwnd with rfl | rfl
        · exact h.wnd_le
        · exact sndWndOf_le _
      have hsnd : c'.snd = (x.withWnd wnd wl1 wl2).snd := congrArg TxSide.snd hside
      have hexc : c'.tx.exclusive = x.exclusive := congrArg TxSide.exclusive hside
      rw [hsnd, hside, hexc]
      rcases hx with rfl | ⟨hacks, rfl⟩
      · refine ⟨?_, rfl, fun _ => rfl⟩
        change TxSide.Ok _ _ (a + gap c.snd.una c.snd.una) (b + gap c.snd.nxt c.snd.nxt)
        rw [gap_self, gap_self]
        exact (h.withWnd hwnd' _ _).of_state hst
      · have hnxt : ((c.txSide.acked seg.ack).withWnd wnd wl1 wl2).snd.nxt = c.snd.nxt := by
          simp [TxSide.acked, TxSide.withWnd, Conn.txSide]
        have huna : ((c.txSide.acked seg.ack).withWnd wnd wl1 wl2).snd.una = seg.ack := by
          simp [TxSide.acked, TxSide.withWnd, Conn.txSide]
        refine ⟨?_, by simp [TxSide.acked, Conn.txSide], fun _ => hnxt⟩
        rw [hnxt, huna, gap_self]
        have hne : c'.state ≠ .synSent := by
          intro hc'
          have hle : c.state.toNat ≤ TcpState.synSent.toNat := hc' ▸ hst
          have hsent : c.state = .synSent := by
            revert hle
            cases c.state <;> decide
          rw [hs hsent] at hc'
          cases hc'
        exact (h.acked hst hne (hack hacks)).withWnd hwnd' _ _

/-- The window that a writer is given fits behind what is outstanding. -/
theorem TxSide.Ok.winlen {c : Conn} {a b : ℕ} (h : c.txSide.Ok c.state a b)
    (hb : ¬ writeBlocked c) :
    .established ≤ c.state ∧ b + (c.snd.una + c.snd.wnd - c.snd.nxt).toNat ≤ a + 2 ^ 16 := by
  simp only [writeBlocked, not_or] at hb
  obtain ⟨hst, -, hlt⟩ := hb
  refine ⟨Nat.le_of_not_lt hst, ?_⟩
  have hle := h.le
  have hnear := h.near
  have hwnd : c.snd.wnd.toNat ≤ 65533 := h.wnd_le
  have huna : c.snd.una = c.snd.iss + BitVec.ofNat 32 a := h.una
  have hnxt : c.snd.nxt = c.snd.iss + BitVec.ofNat 32 b := h.nxt
  have hedge : c.snd.una + c.snd.wnd = c.snd.iss + BitVec.ofNat 32 (a + c.snd.wnd.toNat) := by
    rw [huna, BitVec.ofNat_add, BitVec.add_assoc]
    simp
  have hd : ahead (c.snd.una + c.snd.wnd) c.snd.nxt = (a + c.snd.wnd.toNat : ℕ) - b := by
    rw [hedge, hnxt]
    exact ahead_add_add _ (by omega) (by omega)
  rw [wrapsLte_iff, hd] at hlt
  have hnat := toNat_sub_of_ahead_nonneg (a := c.snd.una + c.snd.wnd) (b := c.snd.nxt) (by omega)
  omega

/-- What a call of the segmenter by a writer with window `w` makes of the counts. -/
theorem TxSide.Ok.tcpTxSend {c c' : Conn} {a b w : ℕ} {buf : List Byte} {push : Bool} {io : Io}
    {ret : ℤ} (h : c.txSide.Ok c.state a b) (hw : .established ≤ c.state ∧ b + w ≤ a + 2 ^ 16)
    (hs : tcpTxSend c (buf.take w) push io = .ok (c', ret)) :
    ∃ n ≤ w, Sent n c.txSide c'.txSide ∧ (n = 0 ∧ ret ≤ 0 ∨ 0 < n ∧ ret = n) ∧
      c'.txSide.Ok c'.state a (b + n) ∧ c'.state = c.state ∧ gap c.snd.nxt c'.snd.nxt = n ∧
      c'.snd.una = c.snd.una := by
  obtain ⟨n, hn, hsent, hret, hfit, hp⟩ := tcpTxSend_spec hs h.pendingEnds h.pendingFits
  have hnw : n ≤ w := hn.trans (by simp)
  have hle := h.le
  have hst := (sameRx_tcpTxSend hs).state
  have hpend : c'.txSide.pending = none ∨ c'.txSide.pendLen ≤ c.txSide.pendLen + n :=
    hp.imp id fun ⟨_, he⟩ => he ▸ TxSide.parkLen_le _ _ _
  have hsnd : c'.snd = { c.snd with nxt := c.snd.nxt + BitVec.ofNat 32 n } := hsent.snd
  refine ⟨n, hnw, hsent, hret, ?_, hst, TxSide.gap_nxt_of_sent hsent (by omega), by rw [hsnd]⟩
  rw [hst]
  exact h.sent hsent hfit hw.1 (by omega) hpend

theorem Sys.exclusive_of_queuesFin {s : Sys} {t : Tid} (h : s.queuesFin t) :
    s.conn.tx.exclusive = false := by
  simp only [Sys.queuesFin, Bool.and_eq_true, Bool.not_eq_true'] at h
  exact h.1.2

namespace TxInv

variable {s s' : Sys} {a b : ℕ}

/-- The invariant after a FIN was queued. -/
theorem queued (h : TxInv s a b) {t : Tid} (hq : s.queuesFin t) (hpend : s.conn.tx.pending = none)
    (hlt : gap s.conn.snd.una s.conn.snd.nxt < 2 ^ 30) (hst : s.conn.state ≤ s'.conn.state)
    (hsnd : s'.conn.snd = s.conn.txSide.queued.snd) (hp : s'.conn.tx.pending = none)
    (hw : SameWriters s s') :
    TxInv s' (a + gap s.conn.snd.una s'.conn.snd.una)
      (b + gap s.conn.snd.nxt s'.conn.snd.nxt) := by
  have hex := Sys.exclusive_of_queuesFin hq
  have hgap : gap s.conn.snd.nxt s'.conn.snd.nxt = 1 := by
    rw [hsnd]
    exact gap_add s.conn.snd.nxt (show 1 < 2 ^ 31 by omega)
  rw [hgap, show s'.conn.snd.una = s.conn.snd.una by rw [hsnd]; rfl, gap_self]
  refine h.of_same ?_ hw (fun hex' => ?_) hst ?_
  · have hok : s'.conn.txSide.Ok s.conn.state _ _ :=
      (h.side.queued hpend hlt).of_snd hsnd (.inr hp)
    exact hok.of_state hst
  · rw [hex] at hex'
    cases hex'
  · rintro ⟨u, w, hu⟩
    have hholds := h.no_owner hex u
    rw [Proc.holdsTx_of_winlen hu] at hholds
    cases hholds

/-- Before the peer's SYN nothing is acknowledged, so every step is one of the moves. -/
theorem txMove {e : Event} (h : TxInv s a b) (hs : sysStep s e = .ok s') : TxMove s e s' := by
  refine sysStep_txMove (fun hsent => ?_) hs
  have huna := h.side.una
  rw [h.side.syn hsent] at huna
  simpa [Conn.txSide] using huna

/-- **A settled step** keeps the invariant, with the counts moved by what `snd_una`
and `snd_nxt` moved. -/
theorem step {e : Event} (h : TxInv s a b) (hok : s.conn.RxOk) (hg : Settled s e)
    (hs : sysStep s e = .ok s') :
    TxInv s' (a + gap s.conn.snd.una s'.conn.snd.una)
      (b + gap s.conn.snd.nxt s'.conn.snd.nxt) := by
  have hst := (sysStep_rxMove hok hs).state_le
  cases h.txMove hs with
  | inert hside hw =>
      have hsnd : s'.conn.snd = s.conn.snd := congrArg TxSide.snd hside
      have hex : s'.conn.tx.exclusive = s.conn.tx.exclusive := congrArg TxSide.exclusive hside
      rw [hsnd, gap_self, gap_self]
      exact h.of_same (hside ▸ h.side.of_state hst) hw (by simp [hex]) hst fun _ => le_refl _
  | fail hcl hside hw =>
      have hsnd : s'.conn.snd = s.conn.snd := congrArg TxSide.snd hside
      have hex : s'.conn.tx.exclusive = s.conn.tx.exclusive := congrArg TxSide.exclusive hside
      rw [hsnd, gap_self, gap_self]
      exact h.of_same (hside ▸ h.side.failed.of_state hst) hw (by simp [hex]) hst
        fun _ => le_refl _
  | segment hparse heff hprocs =>
      simp only [Settled, hparse] at hg
      obtain ⟨hside, hex, hnxt⟩ := h.side.effect heff hst hg.1 hg.2
      refine h.of_same hside (fun t => .inl (by rw [hprocs])) (by simp [hex]) hst ?_
      rintro ⟨t, w, hw⟩
      rw [hnxt, gap_self]
      · omega
      · intro hsent
        have hle := (h.writer t w hw).1
        rw [hsent] at hle
        exact absurd hle (by decide)
  | fin hq ha hn hside hw =>
      obtain ⟨hpend, hlt⟩ := hg hq ha
      refine h.queued hq hpend hlt hst (congrArg TxSide.snd hside) ?_ hw
      exact (congrArg TxSide.pending hside).trans hpend
  | finErr hq ha hn hside hw =>
      obtain ⟨hpend, hlt⟩ := hg hq ha
      have hex := Sys.exclusive_of_queuesFin hq
      rcases hside with hside | ⟨-, hside⟩
      · refine h.queued hq hpend hlt hst (congrArg TxSide.snd hside) ?_ hw
        exact (congrArg TxSide.pending hside).trans hpend
      · refine h.queued hq hpend hlt hst (congrArg TxSide.snd hside) ?_ hw
        refine (congrArg TxSide.pending hside).trans ?_
        simp [TxSide.failed, TxSide.queued, Conn.txSide, hex]
  | lock hr hcl hb hwl hp =>
      have hex : s.conn.tx.exclusive = false := by
        simp only [writeBlocked, not_or, Bool.not_eq_true] at hb
        exact hb.2.1
      have hfit := h.side.winlen hb
      simp only [Sys.conn_move, gap_self, Nat.add_zero]
      refine of_owner (fun u _ => h.no_owner hex u) rfl ?_ (fun _ => rfl) fun w hw => ?_
      · exact h.side.of_snd rfl (.inl rfl)
      · rcases hp with ⟨buf, rfl⟩ | ⟨iov, rfl⟩ <;> cases hw <;> exact hwl ▸ hfit
  | lockRetransmit hr hex hne =>
      simp only [Sys.conn_move, gap_self, Nat.add_zero]
      refine of_owner (fun u _ => h.no_owner hex u) rfl ?_ (fun _ => rfl) fun w hw => ?_
      · exact h.side.of_snd rfl (.inl rfl)
      · cases hw
  | @send t _ _ _ c ret hp hsend =>
      have hholds : (s.procs t).holdsTx := by rw [hp]; rfl
      have hw := h.writer t _ (by rw [hp]; rfl)
      obtain ⟨n, -, hsent, -, hside, -, hnxt, huna⟩ := h.side.tcpTxSend hw hsend
      simp only [Sys.conn_move, hnxt, huna, gap_self, Nat.add_zero]
      refine of_owner (h.only_owner hholds) rfl hside (fun _ => ?_) fun w hw => ?_
      · exact hsent.exclusive.trans (h.owner t hholds)
      · cases hw
  | @sendv t _ _ _ winlen _ c _ ret p hp h0 hsend hnext =>
      have hholds : (s.procs t).holdsTx := by rw [hp]; rfl
      have hw := h.writer t winlen (by rw [hp]; rfl)
      obtain ⟨n, hn, hsent, hret, hside, hstc, hnxt, huna⟩ := h.side.tcpTxSend hw hsend
      simp only [Sys.conn_move, hnxt, huna, gap_self, Nat.add_zero]
      refine of_owner (h.only_owner hholds) rfl hside (fun _ => ?_) fun w hw' => ?_
      · exact hsent.exclusive.trans (h.owner t hholds)
      · rcases hnext with ⟨-, r, rfl⟩ | ⟨hpos, rfl⟩
        · cases hw'
        · cases hw'
          exact ⟨hstc ▸ hw.1, by omega⟩
  | @endv t _ _ _ _ _ _ hp hend =>
      have hholds : (s.procs t).holdsTx := by rw [hp]; rfl
      simp only [Sys.conn_move, gap_self, Nat.add_zero]
      refine of_owner (h.only_owner hholds) rfl h.side (fun _ => h.owner t hholds) fun w hw => ?_
      cases hw
  | @resend t _ c hp hre =>
      have hholds : (s.procs t).holdsTx := by rw [hp]; rfl
      obtain ⟨txq, -, hside⟩ := txSide_tcpTxRetransmit hre
      have hsnd : c.snd = s.conn.snd := congrArg TxSide.snd hside
      simp only [Sys.conn_move, hsnd, gap_self, Nat.add_zero]
      refine of_owner (h.only_owner hholds) rfl ?_ (fun _ => ?_) fun w hw => ?_
      · have hok : c.txSide.Ok s.conn.state a b :=
          h.side.of_snd (by rw [hside]) (.inl (by rw [hside]))
        exact hok.of_state hst
      · exact (congrArg TxSide.exclusive hside).trans (h.owner t hholds)
      · cases hw
  | @unlock t _ _ _ hp hex hside hprocs =>
      have hholds : (s.procs t).holdsTx := by
        rcases hp with ⟨r, hp⟩ | hp <;> rw [hp] <;> rfl
      have hok := h.side.unlocked s.conn.state
      have hsnd : s'.conn.snd = s.conn.snd :=
        (congrArg TxSide.snd hside).trans (TxSide.snd_unlocked _ _)
      rw [hsnd, gap_self, gap_self]
      refine of_owner (h.only_owner hholds) hprocs ?_ (fun hd => ?_) fun w hw => ?_
      · exact hside ▸ hok.of_state hst
      · cases hd
      · cases hw

end TxInv

/-! ## The start -/

/-- A connection starts with a control segment queued and nothing else. -/
theorem Sys.Start.txSide {s : Sys} (h : s.Start) : ∃ iss,
    s.conn.txSide = (tcpConnAlloc iss).txSide.queued ∧ s.conn.state < .established ∧
      ∀ t, s.procs t = .idle := by
  cases h with
  | @dial iss io c h =>
      rw [tcpDialStart] at h
      cases hr : tcpTxCtl (tcpConnAlloc iss) { syn := true } io with
      | mk c₁ ret =>
          rw [hr] at h
          dsimp only at h
          split at h
          · cases h
            contradiction
          · rename_i hret
            obtain ⟨c₂, h₂, h⟩ := bind_eq_ok.mp h
            cases h
            refine ⟨iss, ?_, ?_, fun _ => rfl⟩
            · rw [← txSide_tcpTxCtl_of_ret hr hret]
              exact (txSide_tcpConnSetState h₂).trans rfl
            · change c.state < _
              rw [(tcpConnSetState_spec h₂).2]
              decide
  | @listen iss f io c h =>
      rw [tcpRxListener] at h
      split at h
      · cases h
      split at h
      · cases h
      dsimp only at h
      generalize hc₀ : ({ tcpConnAlloc iss with rcv := _ } : Conn) = c₀ at h
      cases hr : tcpTxCtl c₀ { syn := true, ack := true } io with
      | mk c₁ ret =>
          rw [hr] at h
          dsimp only at h
          split at h
          · cases h
          · rename_i hret
            obtain ⟨c₂, h₂, h⟩ := bind_eq_ok.mp h
            cases h
            refine ⟨iss, ?_, ?_, fun _ => rfl⟩
            · rw [show (tcpConnAlloc iss).txSide = c₀.txSide by rw [← hc₀]; rfl,
                ← txSide_tcpTxCtl_of_ret hr hret]
              exact (txSide_tcpConnSetState h₂).trans rfl
            · change c.state < _
              rw [(tcpConnSetState_spec h₂).2]
              decide

theorem Sys.Start.txInv {s : Sys} (h : s.Start) : TxInv s 0 1 := by
  obtain ⟨iss, hside, -, hidle⟩ := h.txSide
  have hnone : ∀ t, (s.procs t).holdsTx = false := fun t => by rw [hidle t]; rfl
  refine ⟨?_, fun t ht => ?_, fun t u ht => ?_, fun t w ht => ?_⟩
  · rw [hside]
    refine ⟨?_, ?_, ?_, by omega, ?_, fun _ => rfl, fun _ => rfl, nofun, nofun⟩ <;>
      simp [TxSide.queued, Conn.txSide, tcpConnAlloc, TxSide.pendLen]
  · rw [hnone t] at ht
    cases ht
  · rw [hnone t] at ht
    cases ht
  · rw [hidle t] at ht
    cases ht

end Skyloft
