import Mathlib.Data.List.TakeWhile
import Skyloft.Net.SendSide

/-!
# The send queue tiles the sequence space

The spans of `txq`, followed by the buffer kept for later, lie end to end and lead
to `snd_nxt`; while no writer owns the queue, the first of them ends after
`snd_una`.  A retransmission pass strips what was acknowledged off a buffer, which
keeps the spans together as long as the buffer is the first one.

`TxLog` records the counts of the sequence numbers taken and acknowledged, and how
often a FIN was queued; they are computed from the states a step starts and ends
in, and change nothing in the system.

## Main definitions

* `TxLog`, `txLogStep` — the system with the counts.
* `Contiguous` — the guard of a step.
* `TxSide.Tiled`, `SendInv`, `SendInv.step` — the invariant.
* `send_side_tiled` — the result.
-/

namespace Skyloft

open Run Serial

/-- A system with the counts of its send side. -/
structure TxLog where
  sys : Sys
  sent : ℕ
  acked : ℕ
  fins : ℕ

/-- The counts at the start of a connection. -/
def TxLog.start (s : Sys) : TxLog :=
  ⟨s, gap s.conn.snd.iss s.conn.snd.nxt, gap s.conn.snd.iss s.conn.snd.una, 0⟩

/-- A task inside `tcp_shutdown` or `tcp_close` took a sequence number, for a FIN. -/
def finQueued (s s' : Sys) : Event → Bool
  | .run t _ => (s.procs t).shuts && s'.conn.snd.nxt != s.conn.snd.nxt
  | _ => false

/-- One event, counted. -/
def txLogStep (l : TxLog) (e : Event) : Except Fault TxLog := do
  let s' ← sysStep l.sys e
  return {
    sys := s'
    sent := l.sent + gap l.sys.conn.snd.nxt s'.conn.snd.nxt
    acked := l.acked + gap l.sys.conn.snd.una s'.conn.snd.una
    fins := l.fins + (finQueued l.sys s' e).toNat }

/-- The span is acknowledged in part. -/
def Partial (una : Seq) (p : Seq × Seq) : Prop := wrapsLt p.1 una ∧ ¬ wrapsLte p.2 una

instance (una : Seq) (p : Seq × Seq) : Decidable (Partial una p) :=
  inferInstanceAs (Decidable (_ ∧ _))

/-- The guard: the step is settled, the transmission of a FIN succeeds, and a
retransmission pass finds no buffer but the first acknowledged in part. -/
def Contiguous (s : Sys) (e : Event) : Prop :=
  Settled s e ∧
    match e with
    | .run t io =>
        (s.queuesFin t → io.alloc 0 → io.net 0 = 0) ∧
        (match s.procs t with
          | .retransmitSend => ∀ p ∈ s.conn.txSide.txq.tail, ¬ Partial s.conn.snd.una p
          | _ => True)
    | _ => True

instance (s : Sys) (e : Event) : Decidable (Contiguous s e) :=
  @instDecidableAnd _ _ inferInstance <|
    match e with
    | .run t io => by
        refine @instDecidableAnd _ _ inferInstance ?_
        rcases s.procs t with _ | _ | _ | _ | _ | _ | _ | _ | _ | _ | _ | _ | _ | _ | _ | _ | _ | _ | _ <;>
          first | exact .isTrue trivial | exact List.decidableBAll _ _
    | .call _ _ | .rx _ _ _ | .ackOut _ | .resend _ | .timeouts _ _ _ | .txDone _ | .netErr _ _ =>
        .isTrue trivial

/-- The spans lie end to end and lead to `snd_nxt`, and the first one is not
acknowledged unless a writer owns the queue. -/
structure TxSide.Tiled (x : TxSide) : Prop where
  tiles : ∃ lo, Tiling lo x.spans x.snd.nxt
  first : x.exclusive = false → ∀ p ∈ x.spans.head?, wrapsGt p.2 x.snd.una

/-- What is known once a FIN is queued: no buffer is kept for later, and no writer
sends or will send. -/
def Finished (s : Sys) : Prop :=
  s.conn.tx.pending = none ∧ s.conn.tx.closed ∧ ∀ t, (s.procs t).winlen = none

/-- The invariant. -/
structure SendInv (l : TxLog) : Prop where
  counts : TxInv l.sys l.acked l.sent
  tiled : l.sys.conn.txSide.Tiled
  fin : 0 < l.fins → Finished l.sys

/-! ## Operations -/

namespace TxSide

variable {x x' : TxSide} {st : TcpState} {a b n : ℕ}

theorem Tiled.of_nil (h : x.spans = []) : x.Tiled := by
  refine ⟨⟨x.snd.nxt, ?_⟩, fun _ p hp => ?_⟩
  · rw [h]
    rfl
  · rw [h] at hp
    cases hp

/-- The transmitted spans lead to the head. -/
theorem Tiled.txq (h : x.Tiled) : ∃ lo, Tiling lo x.txq x.head := by
  obtain ⟨lo, htile⟩ := h.tiles
  obtain ⟨mid, h₁, h₂⟩ := Tiling.append_iff.mp htile
  refine ⟨lo, ?_⟩
  have hmid : mid = x.head := by
    cases hp : x.pending with
    | none => simpa [TxSide.head, hp] using h₂
    | some m =>
        rw [hp] at h₂
        simpa [TxSide.head, hp, Mbuf.span] using h₂.1.symm
  exact hmid ▸ h₁

theorem Tiled.sent (h : x.Tiled) (hs : Sent n x x') (hex : x.exclusive) : x'.Tiled := by
  obtain ⟨lo, htile⟩ := h.txq
  obtain ⟨ts, hts, htile'⟩ := hs.tiles
  refine ⟨⟨lo, hts ▸ htile.append htile'⟩, fun hex' => ?_⟩
  rw [hs.exclusive, hex] at hex'
  cases hex'

theorem Tiled.queued (h : x.Tiled) (hok : x.Ok st a b) (hp : x.pending = none) :
    x.queued.Tiled := by
  obtain ⟨lo, htile⟩ := h.txq
  have hspans : x.queued.spans = x.txq ++ [(x.snd.nxt, x.snd.nxt + 1)] := by
    simp [TxSide.spans, TxSide.queued, hp]
  have hhead : x.head = x.snd.nxt := by simp [TxSide.head, hp]
  refine ⟨⟨lo, ?_⟩, fun hex p hp' => ?_⟩
  · rw [hspans]
    refine htile.append ?_
    rw [hhead]
    exact ⟨rfl, rfl⟩
  · rw [hspans] at hp'
    cases hq : x.txq with
    | nil =>
        rw [hq] at hp'
        have hspan : (x.snd.nxt, x.snd.nxt + 1) = p := by simpa using hp'
        have hle := hok.le
        have hnear := hok.near
        have hgt := hok.wrapsGt_add (n := b + 1) (by omega) (by omega)
        rw [BitVec.ofNat_add, ← BitVec.add_assoc, ← hok.nxt] at hgt
        rw [← hspan]
        exact hgt
    | cons q qs =>
        rw [hq] at hp'
        refine h.first hex p ?_
        rw [TxSide.spans, hq]
        exact hp'

/-- Dropping spans from the front. -/
theorem tiles_of_suffix (h : ∃ lo, Tiling lo x.spans x.snd.nxt) (hsnd : x'.snd.nxt = x.snd.nxt)
    (hs : x'.spans <:+ x.spans) : ∃ lo, Tiling lo x'.spans x'.snd.nxt := by
  obtain ⟨lo, htile⟩ := h
  rw [hsnd]
  exact htile.suffix hs

theorem spans_trimmed_suffix (x : TxSide) : x.trimmed.spans <:+ x.spans := by
  rw [TxSide.trimmed]
  split
  · exact List.suffix_refl _
  · obtain ⟨zs, hzs⟩ := List.dropWhile_suffix (l := x.txq) fun p => decide ¬ wrapsGt p.2 x.snd.una
    refine ⟨zs, ?_⟩
    simp only [TxSide.spans]
    rw [← List.append_assoc, hzs]

/-- With the acknowledged spans dropped, the first span is not acknowledged. -/
theorem first_trimmed (hok : x.Ok st a b) (hex : x.exclusive = false) :
    ∀ p ∈ x.trimmed.spans.head?, wrapsGt p.2 x.snd.una := by
  intro p hp
  rw [TxSide.trimmed, if_neg (by simp [hex])] at hp
  have hdrop := List.head?_dropWhile_not (fun p => decide ¬ wrapsGt p.2 x.snd.una) x.txq
  simp only [TxSide.spans] at hp
  cases hq : x.txq.dropWhile fun p => decide ¬ wrapsGt p.2 x.snd.una with
  | nil =>
      rw [hq] at hp
      cases hpend : x.pending with
      | none => simp [hpend] at hp
      | some m =>
          have hspan : m.span = p := by simpa [hpend] using hp
          have hpos := (hok.pendingFits m hpend).1
          have hlen : x.pendLen = m.len := by simp [TxSide.pendLen, hpend]
          have hle := hok.le
          have hnear := hok.near
          have hgt := hok.wrapsGt_add (n := b) (by omega) (by omega)
          rw [← hok.nxt, ← hok.pendingEnds m hpend] at hgt
          rw [← hspan]
          exact hgt
  | cons q qs =>
      rw [hq] at hp hdrop
      have hqp : q = p := by simpa using hp
      simpa [hqp] using hdrop

theorem Tiled.trimmed (h : ∃ lo, Tiling lo x.spans x.snd.nxt) (hok : x.Ok st a b) :
    x.trimmed.Tiled := by
  refine ⟨tiles_of_suffix h (by simp) (spans_trimmed_suffix x), fun hex p hp => ?_⟩
  rw [snd_trimmed]
  exact first_trimmed hok (by simpa using hex) p hp

theorem Tiled.acked {ack : Seq} (h : x.Tiled) (hok : (x.acked ack).Ok st a b) :
    (x.acked ack).Tiled := by
  refine @Tiled.trimmed _ st a b h.tiles (hok.of_snd ?_ (.inl ?_))
  · simp [TxSide.acked]
  · simp [TxSide.acked]

theorem Tiled.failed (h : x.Tiled) : x.failed.Tiled := by
  cases hex : x.exclusive with
  | false => exact Tiled.of_nil (by simp [TxSide.failed, TxSide.spans, hex])
  | true =>
      have hspans : x.failed.spans = x.spans := by simp [TxSide.failed, TxSide.spans, hex]
      refine ⟨?_, fun hex' => ?_⟩
      · rw [hspans]
        exact h.tiles
      · exact absurd (hex.symm.trans hex') (by decide)

theorem Tiled.unlocked (h : x.Tiled) (hok : x.Ok st a b) : (x.unlocked st).Tiled := by
  have htrim : ({ x with exclusive := false } : TxSide).trimmed.Tiled :=
    Tiled.trimmed h.tiles (hok.of_snd rfl (.inl rfl))
  simp only [TxSide.unlocked]
  split
  · exact Tiled.of_nil rfl
  · exact htrim

/-- The queue is taken by its owner. -/
theorem Tiled.locked (h : x.Tiled) : TxSide.Tiled { x with exclusive := true } :=
  ⟨h.tiles, nofun⟩

/-- A retransmission pass that strips at most the first buffer. -/
theorem Tiled.stripped {una : Seq} {txq : List (Seq × Seq)} (h : x.Tiled) (hex : x.exclusive)
    (hq : List.Forall₂ (Stripped una) x.txq txq)
    (hpart : ∀ p ∈ x.txq.tail, ¬ Partial una p) : TxSide.Tiled { x with txq := txq } := by
  have hsame : ∀ {q q' : List (Seq × Seq)}, List.Forall₂ (Stripped una) q q' →
      (∀ p ∈ q, ¬ Partial una p) → q' = q := by
    intro q q' hq
    induction hq with
    | nil => intro _; rfl
    | cons hp _ ih =>
        intro hall
        rw [ih fun p hp => hall p (List.mem_cons_of_mem _ hp)]
        rcases hp with rfl | ⟨hlt, hgt, -⟩
        · rfl
        · exact absurd ⟨hlt, hgt⟩ (hall _ List.mem_cons_self)
  refine ⟨?_, fun hex' => absurd (hex.symm.trans hex') (by decide)⟩
  obtain ⟨lo, htile⟩ := h.tiles
  rw [TxSide.spans] at htile ⊢
  generalize x.txq = q at *
  cases hq with
  | nil => exact ⟨lo, htile⟩
  | @cons p p' q q' hp hq =>
      rw [hsame hq hpart]
      have hend : p'.2 = p.2 := by rcases hp with rfl | ⟨-, -, rfl⟩ <;> rfl
      exact ⟨p'.1, rfl, hend ▸ htile.2⟩

end TxSide

/-! ## The step lemma -/

/-- A segment. -/
theorem TxSide.Tiled.effect {c c' : Conn} {seg : Segment} {sndNxt : Seq} {a b a' b' : ℕ}
    (h : c.txSide.Tiled) (hok : c.txSide.Ok c.state a b) (heff : TxEffect seg sndNxt c c')
    (hok' : c'.txSide.Ok c'.state a' b') : c'.txSide.Tiled := by
  cases heff with
  | quiet hside => exact hside ▸ h
  | fail _ hside => exact hside ▸ h.failed
  | syn hs hside => exact hside ▸ h.queued hok (hok.early (by rw [hs]; decide))
  | @ack x wnd wl1 wl2 hx _ hside _ =>
      rw [hside] at hok' ⊢
      suffices hx' : x.Tiled from ⟨hx'.tiles, hx'.first⟩
      rcases hx with rfl | ⟨-, rfl⟩
      · exact h
      · have hwnd : (c.txSide.acked seg.ack).snd.wnd.toNat ≤ 65533 := by
          simpa [TxSide.acked] using hok.wnd_le
        exact h.acked (hok'.of_withWnd hwnd)

namespace Finished

variable {s s' : Sys}

theorem of_same (h : Finished s) (hw : SameWriters s s')
    (hp : s'.conn.tx.pending ≠ none → s.conn.tx.pending ≠ none)
    (hc : s.conn.tx.closed → s'.conn.tx.closed) : Finished s' := by
  refine ⟨?_, hc h.2.1, fun t => ?_⟩
  · by_contra hne
    exact hp hne h.1
  · cases ht : (s'.procs t).winlen with
    | none => rfl
    | some w =>
        rcases hw t with he | ⟨-, hf⟩
        · rw [← ht, he]
          exact h.2.2 t
        · rw [Proc.holdsTx_of_winlen ht] at hf
          cases hf

theorem of_owner (h : Finished s) {t : Tid} {p : Proc} (hw : p.winlen = none)
    (hprocs : s'.procs = Function.update s.procs t p) (hp : s'.conn.tx.pending = none)
    (hc : s'.conn.tx.closed = s.conn.tx.closed) : Finished s' := by
  refine ⟨hp, hc ▸ h.2.1, fun u => ?_⟩
  rw [hprocs]
  by_cases hu : u = t
  · rw [hu, Function.update_self]
    exact hw
  · rw [Function.update_of_ne hu]
    exact h.2.2 u

end Finished

namespace SendInv

variable {l : TxLog} {s' : Sys} {e : Event}

/-- **A guarded step** keeps the queue tiled, and a FIN that is queued finds and
leaves no buffer kept for later. -/
theorem tiled_step (h : SendInv l) (hok : l.sys.conn.RxOk) (hg : Contiguous l.sys e)
    (hs : sysStep l.sys e = .ok s') :
    s'.conn.txSide.Tiled ∧ (0 < l.fins + (finQueued l.sys s' e).toNat → Finished s') := by
  obtain ⟨s, sent, acked, fins⟩ := l
  have hi : TxInv s acked sent := h.counts
  have ht : s.conn.txSide.Tiled := h.tiled
  have hf : 0 < fins → Finished s := h.fin
  change Contiguous s e at hg
  change sysStep s e = .ok s' at hs
  have hi' := hi.step hok hg.1 hs
  -- a step that takes no sequence number queues no FIN
  have hnofin : s'.conn.snd.nxt = s.conn.snd.nxt → finQueued s s' e = false := by
    intro hnxt
    cases e <;> simp [finQueued, hnxt]
  cases hi.txMove hs with
  | inert hside hw =>
      refine ⟨hside ▸ ht, fun hpos => ?_⟩
      rw [hnofin (congrArg (fun x : TxSide => x.snd.nxt) hside)] at hpos
      refine (hf hpos).of_same hw ?_ ?_
      · rw [show s'.conn.tx.pending = _ from congrArg TxSide.pending hside]
        exact id
      · rw [show s'.conn.tx.closed = _ from congrArg TxSide.closed hside]
        exact id
  | fail hcl hside hw =>
      refine ⟨hside ▸ ht.failed, fun hpos => ?_⟩
      rw [hnofin (congrArg (fun x : TxSide => x.snd.nxt) hside)] at hpos
      refine (hf hpos).of_same hw ?_ fun _ => congrArg TxSide.closed hside
      rw [show s'.conn.tx.pending = _ from congrArg TxSide.pending hside]
      cases hex : s.conn.tx.exclusive <;> simp [TxSide.failed, Conn.txSide, hex]
  | segment hparse heff hprocs =>
      refine ⟨ht.effect hi.side heff hi'.side, fun hpos => ?_⟩
      exact (hf hpos).of_same (fun t => .inl (by rw [hprocs])) heff.pending_ne heff.closed
  | fin hq ha hn hside hw =>
      have hpend := (hg.1 hq ha).1
      have hex := Sys.exclusive_of_queuesFin hq
      refine ⟨?_, fun _ => ⟨?_, congrArg TxSide.closed hside, fun t => ?_⟩⟩
      · have hqueued := ht.queued hi.side hpend
        exact hside ▸ ⟨hqueued.tiles, hqueued.first⟩
      · exact (congrArg TxSide.pending hside).trans hpend
      · cases hwl : (s'.procs t).winlen with
        | none => rfl
        | some w =>
            have hholds := Proc.holdsTx_of_winlen hwl
            rcases hw t with he | ⟨-, hf'⟩
            · rw [he, hi.no_owner hex t] at hholds
              cases hholds
            · rw [hf'] at hholds
              cases hholds
  | finErr hq ha hn hside hw => exact absurd (hg.2.1 hq ha) hn
  | lock hr hcl hb hwl hp =>
      refine ⟨ht.locked, fun hpos => ?_⟩
      rw [hnofin rfl] at hpos
      exact absurd (hf hpos).2.1 (by simp [hcl])
  | lockRetransmit hr hex hne =>
      refine ⟨ht.locked, fun hpos => ?_⟩
      rw [hnofin rfl] at hpos
      exact (hf hpos).of_owner (p := .retransmitSend) rfl rfl (hf hpos).1 rfl
  | @send t io buf w c ret hp hsend =>
      obtain ⟨n, -, hsent, -⟩ := hi.side.tcpTxSend (hi.writer t _ (by rw [hp]; rfl)) hsend
      refine ⟨ht.sent hsent (hi.owner t (by rw [hp]; rfl)), fun hpos => ?_⟩
      simp only [finQueued, hp, Proc.shuts, Bool.false_and, Bool.toNat_false, Nat.add_zero] at hpos
      have hwl := (hf hpos).2.2 t
      rw [hp] at hwl
      cases hwl
  | @sendv t io buf iov w sent c ret₀ ret p hp h0 hsend hnext =>
      obtain ⟨n, -, hsent, -⟩ := hi.side.tcpTxSend (hi.writer t _ (by rw [hp]; rfl)) hsend
      refine ⟨ht.sent hsent (hi.owner t (by rw [hp]; rfl)), fun hpos => ?_⟩
      simp only [finQueued, hp, Proc.shuts, Bool.false_and, Bool.toNat_false, Nat.add_zero] at hpos
      have hwl := (hf hpos).2.2 t
      rw [hp] at hwl
      cases hwl
  | @endv t io iov w sent ret ret' hp hend =>
      refine ⟨ht, fun hpos => ?_⟩
      rw [hnofin rfl] at hpos
      have hwl := (hf hpos).2.2 t
      rw [hp] at hwl
      cases hwl
  | @resend t io c hp hre =>
      obtain ⟨txq, hq, hside⟩ := txSide_tcpTxRetransmit hre
      have hex := hi.owner t (by rw [hp]; rfl)
      have hpart := hg.2.2
      simp only [hp] at hpart
      refine ⟨hside ▸ ht.stripped hex hq hpart, fun hpos => ?_⟩
      rw [hnofin (congrArg (fun x : TxSide => x.snd.nxt) hside)] at hpos
      exact (hf hpos).of_owner rfl rfl ((congrArg TxSide.pending hside).trans (hf hpos).1)
        (congrArg TxSide.closed hside)
  | @unlock t io ret s' hp hex hside hprocs =>
      have hsnd : s'.conn.snd = s.conn.snd :=
        (congrArg TxSide.snd hside).trans (TxSide.snd_unlocked _ _)
      refine ⟨hside ▸ ht.unlocked hi.side, fun hpos => ?_⟩
      rw [hnofin (by rw [hsnd])] at hpos
      have hfin := hf hpos
      have hpend : s.conn.txSide.pending = none := hfin.1
      refine hfin.of_owner rfl hprocs ?_ ?_
      · refine (congrArg TxSide.pending hside).trans ?_
        exact (TxSide.pending_unlocked _ _).elim (fun he => he.trans hpend) id
      · exact (congrArg TxSide.closed hside).trans (TxSide.closed_unlocked _ _)

theorem step {l' : TxLog} (h : SendInv l) (hok : l.sys.conn.RxOk) (hg : Contiguous l.sys e)
    (hs : txLogStep l e = .ok l') : SendInv l' := by
  obtain ⟨s', h₁, h₂⟩ := bind_eq_ok.mp hs
  cases h₂
  obtain ⟨htiled, hfin⟩ := h.tiled_step hok hg h₁
  exact ⟨h.counts.step hok hg.1 h₁, htiled, hfin⟩

theorem of_start {s : Sys} (h : s.Start) : SendInv (.start s) := by
  obtain ⟨iss, hside, -, -⟩ := h.txSide
  have hsnd : s.conn.snd = (tcpConnAlloc iss).txSide.queued.snd := congrArg TxSide.snd hside
  have hsent : gap s.conn.snd.iss s.conn.snd.nxt = 1 := by
    rw [hsnd]
    exact gap_add iss (show 1 < 2 ^ 31 by omega)
  have hacked : gap s.conn.snd.iss s.conn.snd.una = 0 := by
    rw [hsnd]
    exact gap_self iss
  refine ⟨?_, ?_, fun hpos => absurd hpos (by simp [TxLog.start])⟩
  · change TxInv s (gap _ _) (gap _ _)
    rw [hsent, hacked]
    exact h.txInv
  · change s.conn.txSide.Tiled
    rw [hside]
    refine ⟨⟨iss, rfl, rfl⟩, fun _ p hp => ?_⟩
    have hspan : (iss, iss + 1) = p := Option.some_inj.mp hp
    have hgt := h.txInv.side.wrapsGt_add (n := 1) (by omega) (by omega)
    rw [hside] at hgt
    rw [← hspan]
    exact hgt

end SendInv

/-- **The send queue tiles the sequence space.**  In every state of every guarded
run: the spans of `txq` and of the buffer kept for later lie end to end and lead to
`snd_nxt`; the first of them ends after `snd_una` while no writer is exclusive;
`snd_una` and `snd_nxt` are the counts behind `iss`, in this order; and once a FIN
is queued no buffer is kept for later. -/
theorem send_side_tiled {s₀ : Sys} {l : TxLog} {es : List Event} (h₀ : s₀.Start)
    (hg : Along txLogStep (fun l e => Contiguous l.sys e) (.start s₀) es)
    (h : exec txLogStep (.start s₀) es = .ok l) :
    (∃ lo, Tiling lo l.sys.conn.txSide.spans l.sys.conn.snd.nxt) ∧
    (l.sys.conn.tx.exclusive = false →
      ∀ p ∈ l.sys.conn.txSide.spans.head?, wrapsGt p.2 l.sys.conn.snd.una) ∧
    (l.sys.conn.snd.una = l.sys.conn.snd.iss + BitVec.ofNat 32 l.acked ∧
      l.sys.conn.snd.nxt = l.sys.conn.snd.iss + BitVec.ofNat 32 l.sent ∧ l.acked ≤ l.sent ∧
      wrapsLte l.sys.conn.snd.una l.sys.conn.snd.nxt ∧
      (l.sent < 2 ^ 31 → wrapsLte l.sys.conn.snd.iss l.sys.conn.snd.una)) ∧
    (0 < l.fins → l.sys.conn.tx.pending = none) := by
  have hinv : l.sys.RxInv ∧ SendInv l := by
    refine exec_invariant (I := fun l => l.sys.RxInv ∧ SendInv l) ?_
      ⟨h₀.rxInv, .of_start h₀⟩ hg h
    rintro l e l' ⟨hrx, hi⟩ hge hs
    refine ⟨?_, hi.step hrx.rxOk hge hs⟩
    obtain ⟨s', h₁, h₂⟩ := bind_eq_ok.mp hs
    cases h₂
    exact sysStep_rxInv hrx h₁
  obtain ⟨-, hi⟩ := hinv
  have hle := hi.counts.side.le
  have hnear := hi.counts.side.near
  have huna := hi.counts.side.una
  have hnxt := hi.counts.side.nxt
  change l.sys.conn.snd.una = l.sys.conn.snd.iss + _ at huna
  change l.sys.conn.snd.nxt = l.sys.conn.snd.iss + _ at hnxt
  refine ⟨hi.tiled.tiles, hi.tiled.first, ⟨huna, hnxt, by omega, ?_, fun hlt => ?_⟩,
    fun hpos => (hi.fin hpos).1⟩
  · rw [wrapsLte_iff, huna, hnxt, ahead_add_add _ (by omega) (by omega)]
    omega
  · have hzero := ahead_add_add l.sys.conn.snd.iss (m := 0) (n := l.acked) (by omega) (by omega)
    rw [wrapsLte_iff, huna]
    simp only [BitVec.add_zero] at hzero
    omega

/-- Thirty bytes written and pushed, then a FIN. -/
theorem send_side_tiled_at_fin : ∃ l : TxLog,
    exec txLogStep (.start accepted)
      [.rx (windowFrame 1000) 1 (Io.good 0), .call 0 (.write (List.replicate 30 7)),
        .run 0 (Io.good 0), .run 0 (Io.good 0), .run 0 (Io.good 0),
        .call 0 (.shutdown false true), .run 0 (Io.good 0)] = .ok l ∧
    l.fins = 1 ∧ l.sys.conn.txSide.spans = [(1, 31), (31, 32)] ∧
    l.sys.conn.tx.pending = none :=
  have h := exec_final (by decide)
  ⟨_, h, by decide, by decide,
    (send_side_tiled accepted_start (by decide) h).2.2.2 (by decide)⟩

/-- A write that is longer than the window and then a shutdown: the FIN is queued
behind the thirty bytes kept for later, which are never sent, and the spans do not
lie end to end. -/
theorem fin_overtakes_parked_bytes : accepted.Start ∧ ∃ l : TxLog,
    exec txLogStep (.start accepted)
      [.rx (windowFrame 32) 1 (Io.good 0), .call 0 (.write (List.replicate 31 7)),
        .run 0 (Io.good 0), .run 0 (Io.good 0), .run 0 (Io.good 0),
        .call 0 (.shutdown false true), .run 0 (Io.good 0)] = .ok l ∧
    0 < l.fins ∧ l.sys.conn.tx.pending ≠ none ∧
    l.sys.conn.txSide.spans = [(31, 32), (1, 31)] ∧
    ¬ ∃ lo, Tiling lo [(31, 32), (1, 31)] l.sys.conn.snd.nxt :=
  ⟨accepted_start, _, exec_final (by decide), by decide, by decide,
    by decide, fun ⟨_, _, h, _⟩ => absurd h (by decide)⟩

end Skyloft
