import Skyloft.Net.SendSide
import Mathlib.Data.List.TakeWhile

/-!
# A blocked writer has something in flight

A writer blocks while the send window is full.  What opens the window again is an
acknowledgement, and only transmitted segments are acknowledged or retransmitted.
A buffer that the segmenter keeps for later counts against the window and is not
transmitted, so a write that leaves one behind can fill the window with nothing in
flight.

As long as no write leaves a buffer behind, `txq` is empty only when everything is
acknowledged.

## Main definitions

* `vecPark` — what a `tcp_writev` will leave behind.
* `NeverParks` — the guard: no write leaves a buffer behind.
* `InFlight`, `InFlight.step` — the invariant.
* `blocked_writer_in_flight` — the result.
-/

namespace Skyloft

open Run Serial

/-- The length of the buffer kept for later when a `tcp_writev` with the window `w`
has sent the buffers of `iov` behind a kept buffer of `p` bytes.  An empty buffer
ends the loop of the source. -/
def vecPark : ℕ → List (List Byte) → ℕ → ℕ
  | p, [], _ => p
  | p, buf :: iov, w =>
      if w = 0 ∨ buf = [] then p
      else
        let n := min buf.length w
        vecPark (parkLen p n (iov.isEmpty && decide (buf.length ≤ w))) iov (w - n)

/-- The guard: no write leaves a buffer behind, an acknowledgement covers only what
was transmitted, and fewer than `2 ^ 30` numbers are outstanding when a control
segment is queued. -/
def NeverParks (s : Sys) : Event → Prop
  | .run t io =>
      (match s.procs t with
        | .writeSend buf w =>
            parkLen s.conn.txSide.pendLen (min buf.length w) (decide (buf.length ≤ w)) = 0
        | .writevSend iov w _ _ => vecPark s.conn.txSide.pendLen iov w = 0
        | _ => True) ∧
      (s.queuesFin t → io.alloc 0 → gap s.conn.snd.una s.conn.snd.nxt < 2 ^ 30)
  | .rx f sndNxt io => Settled s (.rx f sndNxt io)
  | _ => True

instance (s : Sys) : (e : Event) → Decidable (NeverParks s e)
  | .run t io => by
      refine @instDecidableAnd _ _ ?_ (inferInstanceAs (Decidable (_ → _)))
      rcases s.procs t with _ | _ | _ | _ | _ | _ | _ | _ | _ | _ | _ | _ | _ | _ | _ | _ | _ | _ | _ <;>
        infer_instance
  | .rx f sndNxt io => inferInstanceAs (Decidable (Settled s (.rx f sndNxt io)))
  | .call _ _ | .ackOut _ | .resend _ | .timeouts _ _ _ | .txDone _ | .netErr _ _ => .isTrue trivial

/-- The program point at which a `tcp_writev` goes through its buffers. -/
def Proc.vec : Proc → Bool
  | .writevSend _ _ _ _ => true
  | _ => false

theorem Proc.holdsTx_of_vec {p : Proc} (h : p.vec) : p.holdsTx := by
  cases p <;> first | rfl | cases h

/-- The last transmitted span ends where the next buffer starts, and if there is
none then everything transmitted is acknowledged. -/
structure TxSide.Flight (x : TxSide) (st : TcpState) : Prop where
  last : ∀ p ∈ x.txq.getLast?, p.2 = x.head
  idle : x.txq = [] → st ≠ .closed → x.snd.una = x.head

/-- The invariant: only a `tcp_writev` that is not through keeps a buffer for later. -/
structure InFlight (s : Sys) : Prop where
  flight : s.conn.txSide.Flight s.conn.state
  pending : s.conn.tx.pending ≠ none → ∃ t, (s.procs t).vec

/-! ## Operations -/

namespace TxSide

variable {x x' : TxSide} {st st' : TcpState} {a b n : ℕ}

/-- A change that leaves the transmitted spans and both ends. -/
theorem Flight.of_eq (h : x.Flight st) (htxq : x'.txq = x.txq) (hhead : x'.head = x.head)
    (huna : x'.snd.una = x.snd.una) : x'.Flight st := by
  refine ⟨?_, ?_⟩
  · rw [htxq, hhead]
    exact h.last
  · rw [htxq, hhead, huna]
    exact h.idle

theorem Flight.of_state (h : x.Flight st) (hst : st ≤ st') : x.Flight st' := by
  refine ⟨h.last, fun hnil hne => h.idle hnil fun hc => hne ?_⟩
  have hle : TcpState.closed.toNat ≤ st'.toNat := hc ▸ hst
  revert hle
  cases st' <;> decide

theorem Flight.sent (h : x.Flight st) (hs : Sent n x x') : x'.Flight st := by
  obtain ⟨us, hus, htile⟩ := hs.txq_eq
  cases us with
  | nil =>
      refine h.of_eq ?_ htile.symm ?_
      · rw [hus, List.append_nil]
      · rw [hs.snd]
  | cons u us =>
      refine ⟨fun p hp => ?_, fun hnil => ?_⟩
      · refine htile.last ?_
        rw [hus, List.getLast?_append] at hp
        simpa using hp
      · simp [hus] at hnil

theorem Flight.queued (hp : x.pending = none) : x.queued.Flight st := by
  refine ⟨fun p hlast => ?_, fun hnil => ?_⟩
  · have hspan : (x.snd.nxt, x.snd.nxt + 1) = p := by simpa [TxSide.queued] using hlast
    rw [← hspan]
    simp [TxSide.head, TxSide.queued, hp]
  · simp [TxSide.queued] at hnil

theorem Flight.failed (h : x.Flight st) : x.failed.Flight .closed := by
  refine ⟨?_, fun _ hne => absurd rfl hne⟩
  cases hex : x.exclusive
  · simp [TxSide.failed, hex]
  · simpa [TxSide.failed, hex, TxSide.head] using h.last

/-- What is left after the acknowledged spans were dropped ends where it ended; if
nothing is left, the last span was acknowledged. -/
theorem Flight.trimmed (h : x.Flight st) (hok : x.Ok st a b) : x.trimmed.Flight st := by
  rw [TxSide.trimmed]
  split
  · exact h
  obtain ⟨zs, hzs⟩ := List.dropWhile_suffix (l := x.txq) fun p => decide ¬ wrapsGt p.2 x.snd.una
  refine ⟨fun p hp => h.last p ?_, fun hnil hne => ?_⟩
  · change p ∈ (x.txq.dropWhile _).getLast? at hp
    rw [← hzs, List.getLast?_append, Option.mem_def.mp hp]
    rfl
  · cases hlast : x.txq.getLast? with
    | none => exact h.idle (List.getLast?_eq_none_iff.mp hlast) hne
    | some p =>
        have hall := List.dropWhile_eq_nil_iff.mp hnil p (List.mem_of_getLast? hlast)
        have hle := hok.le
        have hnear := hok.near
        have hd : ahead x.snd.una x.head = a - (b - x.pendLen : ℕ) := by
          rw [hok.una, hok.head]
          exact ahead_add_add _ (by omega) (by omega)
        simp only [h.last p hlast, decide_eq_true_eq, wrapsGt_iff, hd] at hall
        have hzero : ahead x.snd.una x.head = 0 := by
          rw [hd]
          omega
        exact ahead_eq_zero_iff.mp hzero

theorem Flight.acked {ack : Seq} (h : x.Flight st) (hok : (x.acked ack).Ok st' a b)
    (hst : st ≤ st') (hack : gap x.snd.una ack ≤ gap x.snd.una x.head) :
    (x.acked ack).Flight st' := by
  refine Flight.trimmed (a := a) (b := b) ?_ ?_
  · refine Flight.of_state ⟨h.last, fun hnil hne => ?_⟩ hst
    have hhead := h.idle hnil hne
    rw [← hhead, gap_self] at hack
    have hadd := add_gap x.snd.una ack
    rw [Nat.le_zero.mp hack] at hadd
    exact hadd.symm.trans ((by simp : x.snd.una + BitVec.ofNat 32 0 = x.snd.una).trans hhead)
  · refine hok.of_snd ?_ (.inl ?_)
    · simp [TxSide.acked]
    · simp [TxSide.acked]

theorem Flight.unlocked (h : x.Flight st) (hok : x.Ok st a b) : (x.unlocked st).Flight st := by
  have htrim : ({ x with exclusive := false } : TxSide).trimmed.Flight st :=
    Flight.trimmed (h.of_eq rfl rfl rfl) (hok.of_snd rfl (.inl rfl))
  simp only [TxSide.unlocked]
  split
  · rename_i hcl
    exact ⟨fun _ hlast => by simp at hlast, fun _ hne => absurd hcl hne⟩
  · exact htrim

/-- Stripping buffers leaves their ends. -/
theorem Flight.stripped {una : Seq} {txq : List (Seq × Seq)} (h : x.Flight st)
    (hq : List.Forall₂ (Stripped una) x.txq txq) : TxSide.Flight { x with txq := txq } st := by
  have hends : txq.map Prod.snd = x.txq.map Prod.snd := by
    generalize x.txq = q at hq
    induction hq with
    | nil => rfl
    | cons hp _ ih =>
        rcases hp with rfl | ⟨-, -, rfl⟩ <;> simp [ih]
  refine ⟨fun p hp => ?_, fun hnil => h.idle ?_⟩
  · have hlast : (x.txq.map Prod.snd).getLast? = some p.2 := by
      rw [← hends, List.getLast?_map, Option.mem_def.mp hp]
      rfl
    rw [List.getLast?_map, Option.map_eq_some_iff] at hlast
    obtain ⟨q, hq, he⟩ := hlast
    exact he ▸ h.last q hq
  · rw [show txq = [] from hnil] at hq
    exact List.forall₂_nil_right_iff.mp hq

end TxSide

/-! ## The step lemma -/

/-- A segment. -/
theorem TxSide.Flight.effect {c c' : Conn} {seg : Segment} {sndNxt : Seq} {a b : ℕ}
    (h : c.txSide.Flight c.state) (hok : c.txSide.Ok c.state a b)
    (heff : TxEffect seg sndNxt c c') (hst : c.state ≤ c'.state)
    (hack : Acks c seg sndNxt → gap c.snd.una seg.ack ≤ gap c.snd.una c.txSide.head)
    (hok' : ∃ a' b', c'.txSide.Ok c'.state a' b') : c'.txSide.Flight c'.state := by
  cases heff with
  | quiet hside =>
      rw [hside]
      exact h.of_state hst
  | fail hcl hside =>
      rw [hside, hcl]
      exact h.failed
  | syn hs hside =>
      rw [hside]
      exact TxSide.Flight.queued (hok.early (by rw [hs]; decide))
  | @ack x wnd wl1 wl2 hx _ hside _ =>
      rw [hside] at hok' ⊢
      suffices hx' : x.Flight c'.state from hx'.of_eq rfl rfl rfl
      rcases hx with rfl | ⟨hacks, rfl⟩
      · exact h.of_state hst
      · obtain ⟨a', b', hok'⟩ := hok'
        have hwnd : (c.txSide.acked seg.ack).snd.wnd.toNat ≤ 65533 := by
          simpa [TxSide.acked] using hok.wnd_le
        exact h.acked (hok'.of_withWnd hwnd) hst (hack hacks)

namespace InFlight

variable {s s' : Sys} {a b : ℕ}

/-- With the send side free no buffer is kept for later. -/
theorem pending_none (h : InFlight s) (hi : TxInv s a b) (hex : s.conn.tx.exclusive = false) :
    s.conn.tx.pending = none := by
  by_contra hp
  obtain ⟨t, ht⟩ := h.pending hp
  have hholds := hi.no_owner hex t
  rw [Proc.holdsTx_of_vec ht] at hholds
  cases hholds

/-- No buffer is kept for later while another task than a `tcp_writev` owns the send
side. -/
theorem pending_none_of_owner (h : InFlight s) (hi : TxInv s a b) {t : Tid}
    (ht : (s.procs t).holdsTx) (hv : (s.procs t).vec = false) : s.conn.tx.pending = none := by
  by_contra hp
  obtain ⟨u, hu⟩ := h.pending hp
  rw [hi.unique u t (Proc.holdsTx_of_vec hu) ht, hv] at hu
  cases hu

/-- The guard asks for a settled step. -/
theorem settled (h : InFlight s) (hi : TxInv s a b) {e : Event} (hg : NeverParks s e) :
    Settled s e := by
  cases e with
  | run t io =>
      intro hq ha
      exact ⟨h.pending_none hi (Sys.exclusive_of_queuesFin hq), hg.2 hq ha⟩
  | rx f sndNxt io => exact hg
  | _ => trivial

theorem vec_of_same (h : InFlight s) (hw : SameWriters s s')
    (hp : s'.conn.tx.pending ≠ none → s.conn.tx.pending ≠ none) :
    s'.conn.tx.pending ≠ none → ∃ t, (s'.procs t).vec := by
  intro hne
  obtain ⟨t, ht⟩ := h.pending (hp hne)
  refine ⟨t, ?_⟩
  rcases hw t with he | ⟨hf, -⟩
  · rw [he]
    exact ht
  · rw [Proc.holdsTx_of_vec ht] at hf
    cases hf

/-- A buffer of length 0 is not kept. -/
theorem none_of_pendLen {x : TxSide} (hfit : x.PendingFits) (h : x.pendLen = 0) :
    x.pending = none := by
  cases hp : x.pending with
  | none => rfl
  | some m =>
      have hpos := (hfit m hp).1
      simp only [TxSide.pendLen, hp, Option.elim_some] at h
      omega

/-- **A guarded step** keeps the invariant. -/
theorem step {e : Event} (h : InFlight s) (hi : TxInv s a b) (hok : s.conn.RxOk)
    (hg : NeverParks s e) (hs : sysStep s e = .ok s') : InFlight s' := by
  have hst := (sysStep_rxMove hok hs).state_le
  have hset := h.settled hi hg
  have hi' := hi.step hok hset hs
  cases hi.txMove hs with
  | inert hside hw =>
      refine ⟨hside ▸ h.flight.of_state hst, h.vec_of_same hw ?_⟩
      rw [show s'.conn.tx.pending = s.conn.tx.pending from congrArg TxSide.pending hside]
      exact id
  | fail hcl hside hw =>
      refine ⟨?_, h.vec_of_same hw ?_⟩
      · rw [hside, hcl]
        exact h.flight.failed
      · rw [show s'.conn.tx.pending = _ from congrArg TxSide.pending hside]
        cases hex : s.conn.tx.exclusive <;> simp [TxSide.failed, Conn.txSide, hex]
  | segment hparse heff hprocs =>
      simp only [Settled, hparse] at hset
      refine ⟨h.flight.effect hi.side heff hst hset.1 ⟨_, _, hi'.side⟩, ?_⟩
      exact h.vec_of_same (fun t => .inl (by rw [hprocs])) heff.pending_ne
  | fin hq ha hn hside hw =>
      have hpend := h.pending_none hi (Sys.exclusive_of_queuesFin hq)
      refine ⟨?_, fun hne => ?_⟩
      · rw [hside]
        exact (TxSide.Flight.queued hpend).of_eq rfl rfl rfl
      · exact absurd ((congrArg TxSide.pending hside).trans hpend) hne
  | finErr hq ha hn hside hw =>
      have hpend := h.pending_none hi (Sys.exclusive_of_queuesFin hq)
      rcases hside with hside | ⟨hcl, hside⟩
      · refine ⟨hside ▸ TxSide.Flight.queued hpend, fun hne => ?_⟩
        exact absurd ((congrArg TxSide.pending hside).trans hpend) hne
      · refine ⟨?_, fun hne => absurd ?_ hne⟩
        · rw [hside, hcl]
          exact (show s.conn.txSide.queued.Flight .closed from .queued hpend).failed
        · refine (congrArg TxSide.pending hside).trans ?_
          simp [TxSide.failed, TxSide.queued, Conn.txSide, hpend]
  | lock hr hcl hb hwl hp =>
      have hex : s.conn.tx.exclusive = false := by
        simp only [writeBlocked, not_or, Bool.not_eq_true] at hb
        exact hb.2.1
      exact ⟨h.flight.of_eq rfl rfl rfl, fun hne => absurd (h.pending_none hi hex) hne⟩
  | lockRetransmit hr hex hne =>
      exact ⟨h.flight.of_eq rfl rfl rfl, fun hne => absurd (h.pending_none hi hex) hne⟩
  | @send t io buf w c ret hp hsend =>
      obtain ⟨n, -, hsent, -, hfit, hnone⟩ :=
        tcpTxSend_spec hsend hi.side.pendingEnds hi.side.pendingFits
      have hpark := hg.1
      simp only [hp] at hpark
      refine ⟨(h.flight.sent hsent).of_state hst, fun hne => absurd ?_ hne⟩
      rcases hnone with hnone | ⟨rfl, hlen⟩
      · exact hnone
      · refine none_of_pendLen hfit (hlen.trans ?_)
        rwa [List.length_take, min_comm]
  | @sendv t io buf iov w sent c ret₀ ret p hp h0 hsend hnext =>
      obtain ⟨n, hn, hsent, hret, hfit, hnone⟩ :=
        tcpTxSend_spec hsend hi.side.pendingEnds hi.side.pendingFits
      have hpark := hg.1
      simp only [hp] at hpark
      refine ⟨(h.flight.sent hsent).of_state hst, fun hne => ?_⟩
      rcases hnext with ⟨hle, r, rfl⟩ | ⟨hpos, rfl⟩
      · -- the loop ends early: an allocation failed, or the buffer is empty
        rcases hnone with hnone | ⟨hall, hlen⟩
        · exact absurd hnone hne
        · have hn0 : n = 0 := by omega
          have hbuf : buf = [] := by
            rw [hn0, List.length_take] at hall
            exact List.length_eq_zero_iff.mp (by omega)
          rw [vecPark, if_pos (.inr hbuf)] at hpark
          rw [hn0, parkLen, if_pos rfl, hpark] at hlen
          exact absurd (none_of_pendLen hfit hlen) hne
      · exact ⟨t, by simp [Proc.vec]⟩
  | @endv t io iov w sent ret ret' hp hend =>
      have hpark := hg.1
      simp only [hp] at hpark
      refine ⟨h.flight, fun hne => absurd (none_of_pendLen hi.side.pendingFits ?_) hne⟩
      cases iov with
      | nil => exact hpark
      | cons buf iov =>
          rw [vecPark, if_pos (.inl (hend.resolve_left (by simp)))] at hpark
          exact hpark
  | @resend t io c hp hre =>
      obtain ⟨txq, hq, hside⟩ := txSide_tcpTxRetransmit hre
      have hpend := h.pending_none_of_owner hi (t := t) (by rw [hp]; rfl) (by rw [hp]; rfl)
      refine ⟨?_, fun hne => absurd ((congrArg TxSide.pending hside).trans hpend) hne⟩
      exact (hside ▸ h.flight.stripped hq : c.txSide.Flight s.conn.state).of_state hst
  | @unlock t _ _ _ hp hex hside hprocs =>
      have howner : (s.procs t).holdsTx ∧ (s.procs t).vec = false := by
        rcases hp with ⟨r, hp⟩ | hp <;> rw [hp] <;> exact ⟨rfl, rfl⟩
      have hpend : s.conn.txSide.pending = none :=
        h.pending_none_of_owner hi howner.1 howner.2
      refine ⟨(hside ▸ h.flight.unlocked hi.side).of_state hst, fun hne => absurd ?_ hne⟩
      refine (congrArg TxSide.pending hside).trans ?_
      exact (TxSide.pending_unlocked _ _).elim (fun he => he.trans hpend) id

theorem of_start (h : s.Start) : InFlight s := by
  obtain ⟨iss, hside, -, -⟩ := h.txSide
  refine ⟨hside ▸ TxSide.Flight.queued rfl, fun hne => absurd ?_ hne⟩
  exact congrArg TxSide.pending hside

end InFlight

/-- The invariant holds in every state of every guarded run. -/
theorem inFlight_of_run {s₀ s : Sys} {es : List Event} (h₀ : s₀.Start)
    (hg : Along sysStep NeverParks s₀ es) (h : exec sysStep s₀ es = .ok s) :
    InFlight s ∧ ∃ a b, TxInv s a b := by
  have hinv : s.RxInv ∧ InFlight s ∧ ∃ a b, TxInv s a b := by
    refine exec_invariant (I := fun s => s.RxInv ∧ InFlight s ∧ ∃ a b, TxInv s a b) ?_
      ⟨h₀.rxInv, .of_start h₀, 0, 1, h₀.txInv⟩ hg h
    rintro s e s' ⟨hrx, hf, a, b, hi⟩ hge hs
    exact ⟨sysStep_rxInv hrx hs, hf.step hi hrx.rxOk hge hs, _, _,
      hi.step hrx.rxOk (hf.settled hi hge) hs⟩
  exact hinv.2

/-- **A blocked writer has something in flight.**  In every state of every run in
which no write leaves a buffer behind: if the connection is established, no writer
is exclusive and the send window is open but full, then `txq` is not empty. -/
theorem blocked_writer_in_flight {s₀ s : Sys} {es : List Event} (h₀ : s₀.Start)
    (hg : Along sysStep NeverParks s₀ es) (h : exec sysStep s₀ es = .ok s)
    (hst : s.conn.state = .established) (hex : s.conn.tx.exclusive = false)
    (hfull : wrapsLte (s.conn.snd.una + s.conn.snd.wnd) s.conn.snd.nxt)
    (hwnd : s.conn.snd.wnd ≠ 0) : s.conn.tx.txq ≠ [] := by
  obtain ⟨hf, a, b, hi⟩ := inFlight_of_run h₀ hg h
  intro hnil
  have hhead : s.conn.txSide.head = s.conn.snd.nxt := by
    simp [TxSide.head, Conn.txSide, hf.pending_none hi hex]
  have hidle := hf.flight.idle (by simp [Conn.txSide, hnil]) (by rw [hst]; decide)
  rw [hhead] at hidle
  change s.conn.snd.una = s.conn.snd.nxt at hidle
  have hle : s.conn.snd.wnd.toNat ≤ 65533 := hi.side.wnd_le
  have hpos : s.conn.snd.wnd.toNat ≠ 0 := by simpa [BitVec.toNat_eq] using hwnd
  rw [wrapsLte_iff, hidle, ahead, BitVec.add_comm, BitVec.add_sub_cancel,
    BitVec.toInt_eq_toNat_of_lt (by omega)] at hfull
  omega

/-- A write that fits the window fills it and is in flight. -/
theorem blocked_writer_in_flight_pushed : ∃ s : Sys,
    exec sysStep accepted
      [.rx (windowFrame 32) 1 (Io.good 0), .call 0 (.write (List.replicate 30 7)),
        .run 0 (Io.good 0), .run 0 (Io.good 0), .run 0 (Io.good 0)] = .ok s ∧
    wrapsLte (s.conn.snd.una + s.conn.snd.wnd) s.conn.snd.nxt ∧ s.conn.tx.txq ≠ [] :=
  have h := exec_final (by decide)
  ⟨_, h, by decide, blocked_writer_in_flight accepted_start (by decide) h
    (by decide) (by decide) (by decide) (by decide)⟩

/-- A write that is one byte longer than the window: all of the window is kept for
later, nothing is in flight, and the next write blocks. -/
theorem parked_write_blocks : accepted.Start ∧ ∃ s : Sys,
    exec sysStep accepted
      [.rx (windowFrame 32) 1 (Io.good 0), .call 0 (.write (List.replicate 31 7)),
        .run 0 (Io.good 0), .run 0 (Io.good 0), .run 0 (Io.good 0)] = .ok s ∧
    s.conn.state = .established ∧ s.conn.tx.exclusive = false ∧
    wrapsLte (s.conn.snd.una + s.conn.snd.wnd) s.conn.snd.nxt ∧ s.conn.snd.wnd ≠ 0 ∧
    s.conn.tx.txq = [] :=
  ⟨accepted_start, _, exec_final (by decide), by decide, by decide,
    by decide, by decide, by decide⟩

end Skyloft
