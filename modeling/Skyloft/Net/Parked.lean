import Skyloft.Net.InFlight
import Skyloft.Net.Shutdown

/-!
# Data that a full write leaves behind

A write that takes every byte it was given should leave no buffer in `tx_pending`: the last vector
is sent with a push.  The push depends on the index of the vector, and an empty vector sends
nothing.

A write is looked at from the point where it has the window, over the steps of its task and of all
others, to its return.

* `Proc.asks` — what a write is about to send, and in which window.
* `FitsIn` — the window and the vectors let all of it be taken.
* `NoTail` — the last vector takes the rest along, or there is no rest.
* `accepted_data_transmitted_iff` — the result.
-/

namespace Skyloft

open Run

/-! ## The condition -/

/-- The number of bytes in the vectors. -/
def iovLength (iov : List (List Byte)) : ℕ := (iov.map List.length).sum

/-- The vectors and the window with which a write starts to send. -/
def Proc.asks : Proc → Option (List (List Byte) × ℕ)
  | .writeSend buf winlen => some ([buf], winlen)
  | .writevSend iov winlen 0 0 => some (iov, winlen)
  | _ => none

/-- The vectors fit into the window and no byte stands behind an empty vector, which ends the
loop of `tcp_writev`. -/
def FitsIn : List (List Byte) → ℕ → Prop
  | [], _ => True
  | buf :: iov, winlen =>
      if buf = [] then iovLength iov = 0
      else buf.length ≤ winlen ∧ FitsIn iov (winlen - buf.length)

/-- The last vector is not empty; or the vectors, behind the `p` bytes in `tx_pending`, end with a
segment, where a segment ends after 1460 bytes or with a vector that leaves fewer than 20. -/
def NoTail (p : ℕ) (iov : List (List Byte)) : Prop :=
  (∃ buf ∈ iov.getLast?, buf ≠ []) ∨
    iov.foldl (fun q buf => parkLen q buf.length false) p = 0

/-- A write is under way. -/
def Proc.writing : Proc → Bool
  | .writeSend _ _ | .writevSend _ _ _ _ | .writeFinish _ => true
  | _ => false

theorem Proc.holdsTx_of_writing {p : Proc} (h : p.writing) : p.holdsTx := by
  cases p <;> first | rfl | cases h

/-- A step during a write of task `t`, for which no allocation fails. -/
def Writing (t : Tid) (s : Sys) : Event → Prop
  | .run u io => (s.procs t).writing ∧ (u = t → ∀ k, io.alloc k = true)
  | _ => (s.procs t).writing

/-! ## The segmenter -/

section

variable {io : Io}

theorem tcpTxSend_fits {c c' : Conn} {buf : List Byte} {push : Bool} {ret : ℤ}
    (h : tcpTxSend c buf push io = .ok (c', ret)) (hfit : c.txSide.PendingFits) :
    c'.txSide.PendingFits := by
  have hkept := tcpTxSendLoop_pending push io (buf.length + 1) 0 c buf hfit (by omega)
  rw [tcpTxSend] at h
  generalize tcpTxSendLoop push io (buf.length + 1) 0 c buf = r at h hkept
  split at h
  · cases h
    intro m hm
    change m ∈ r.1.tx.pending at hm
    rcases hkept with hnone | ⟨-, m', hm', -, hfits⟩
    · simp [hnone] at hm
    · rw [hm', Option.mem_some_iff] at hm
      exact hm ▸ hfits
  · cases h

theorem tcpTxSend_of_alloc {c c' : Conn} {buf : List Byte} {push : Bool} {ret : ℤ}
    (halloc : ∀ k, io.alloc k = true) (hfit : c.txSide.PendingFits)
    (h : tcpTxSend c buf push io = .ok (c', ret)) :
    ret = buf.length ∧ c'.txSide.pendLen = parkLen c.txSide.pendLen buf.length push := by
  obtain ⟨hrest, hlen⟩ := tcpTxSendLoop_of_alloc push halloc (buf.length + 1) 0 c buf hfit
    (Nat.le_succ _) fun _ => Nat.lt_succ_self _
  rw [tcpTxSend] at h
  generalize tcpTxSendLoop push io (buf.length + 1) 0 c buf = r at h hrest hlen
  obtain ⟨c₁, rest⟩ := r
  dsimp only at h hrest hlen
  subst hrest
  split at h
  · cases h
    refine ⟨?_, hlen⟩
    by_cases hbuf : buf = []
    · simp [hbuf]
    · have hpos : 0 < buf.length := List.length_pos_of_ne_nil hbuf
      simp [hpos]
  · cases h

end

/-! ## Every run -/

/-- What holds in every state of every run. -/
structure WriteInv (s : Sys) : Prop where
  rx : s.RxInv
  dialling : s.Dialling
  owned : s.TxOwned
  fits : s.conn.txSide.PendingFits

theorem TxSide.PendingFits.of_pending {x x' : TxSide} (h : x.PendingFits)
    (hp : x'.pending = x.pending ∨ x'.pending = none) : x'.PendingFits := by
  intro m hm
  rcases hp with hp | hp
  · exact h m (hp ▸ hm)
  · rw [hp] at hm
    cases hm

theorem TxSide.pending_failed (x : TxSide) :
    x.failed.pending = x.pending ∨ x.failed.pending = none := by
  cases h : x.exclusive <;> simp [TxSide.failed, h]

/-- A segment leaves the buffer kept for later, or the connection drops it. -/
theorem TxEffect.pending {c c' : Conn} {seg : Segment} {sndNxt : Seq}
    (h : TxEffect seg sndNxt c c') :
    c'.txSide.pending = c.txSide.pending ∨
      c'.txSide.pending = none ∧ c.txSide.exclusive = false := by
  cases h with
  | quiet hside | syn _ hside => exact .inl ((congrArg TxSide.pending hside).trans rfl)
  | fail _ hside =>
      rw [hside]
      cases hex : c.txSide.exclusive <;> simp [TxSide.failed, hex]
  | @ack x _ _ _ hx _ hside _ =>
      left
      refine (congrArg TxSide.pending hside).trans ?_
      rcases hx with rfl | ⟨-, rfl⟩
      · rfl
      · simp [TxSide.withWnd, TxSide.acked]

namespace WriteInv

variable {s s' : Sys} {e : Event}

theorem step_fits (h : WriteInv s) (hs : sysStep s e = .ok s') : s'.conn.txSide.PendingFits := by
  cases sysStep_txMove h.dialling.synSent hs with
  | inert hside => exact h.fits.of_pending (.inl ((congrArg TxSide.pending hside).trans rfl))
  | fail _ hside => exact hside ▸ h.fits.of_pending (TxSide.pending_failed _)
  | segment _ heff => exact h.fits.of_pending (heff.pending.imp id And.left)
  | fin _ _ _ hside => exact h.fits.of_pending (.inl ((congrArg TxSide.pending hside).trans rfl))
  | finErr _ _ _ hside =>
      rcases hside with hside | ⟨-, hside⟩
      · exact h.fits.of_pending (.inl ((congrArg TxSide.pending hside).trans rfl))
      · rw [hside]
        exact h.fits.of_pending (TxSide.pending_failed s.conn.txSide.queued)
  | lock | lockRetransmit | endv => exact h.fits
  | send _ hsend => exact tcpTxSend_fits hsend h.fits
  | sendv _ _ hsend => exact tcpTxSend_fits hsend h.fits
  | resend _ hre =>
      obtain ⟨txq, -, hside⟩ := txSide_tcpTxRetransmit hre
      exact h.fits.of_pending (.inl ((congrArg TxSide.pending hside).trans rfl))
  | unlock _ _ hside => exact hside ▸ h.fits.of_pending (TxSide.pending_unlocked _ _)

theorem step (h : WriteInv s) (hs : sysStep s e = .ok s') : WriteInv s' where
  rx := sysStep_rxInv h.rx hs
  dialling := (Sys.Dialling.step h.rx h.dialling hs).1
  owned := Sys.TxOwned.step h.rx h.dialling h.owned hs
  fits := h.step_fits hs

/-- While a task is in a write, the steps of others move neither it nor the buffer kept for
later. -/
theorem other (h : WriteInv s) {t : Tid} (ht : (s.procs t).holdsTx) (hne : ∀ io, e ≠ .run t io)
    (hs : sysStep s e = .ok s') :
    s'.procs t = s.procs t ∧ s'.conn.txSide.pending = s.conn.txSide.pending := by
  have hex : s.conn.txSide.exclusive = true := h.owned.owner t ht
  have hstay : SameWriters s s' → s'.procs t = s.procs t := by
    intro hw
    refine (hw t).resolve_right fun hn => ?_
    rw [ht] at hn
    cases hn.1
  have howner : ∀ {u}, (s.procs u).holdsTx → u = t := fun hu => h.owned.unique _ t hu ht
  cases sysStep_txMove h.dialling.synSent hs with
  | inert hside hw => exact ⟨hstay hw, congrArg TxSide.pending hside⟩
  | fail _ hside hw =>
      refine ⟨hstay hw, (congrArg TxSide.pending hside).trans ?_⟩
      simp [TxSide.failed, hex]
  | segment _ heff hprocs =>
      refine ⟨by rw [hprocs], heff.pending.resolve_right fun hn => ?_⟩
      rw [hex] at hn
      cases hn.2
  | fin hq | finErr hq =>
      have hfree : s.conn.txSide.exclusive = false := Sys.exclusive_of_queuesFin hq
      rw [hex] at hfree
      cases hfree
  | lock _ _ hb =>
      simp only [writeBlocked, not_or, Bool.not_eq_true] at hb
      exact absurd (hex.symm.trans hb.2.1) (by simp)
  | lockRetransmit _ hfree => exact absurd (hex.symm.trans hfree) (by simp)
  | send hp | sendv hp | endv hp | resend hp =>
      obtain rfl := howner (by rw [hp]; rfl)
      exact absurd rfl (hne _)
  | unlock hp =>
      obtain rfl := howner (by rcases hp with ⟨r, hp⟩ | hp <;> rw [hp] <;> rfl)
      exact absurd rfl (hne _)

end WriteInv

/-! ## One write -/

/-- The bytes that the vectors leave in `tx_pending`, behind `p` bytes, when all are taken. -/
def tailLen : ℕ → List (List Byte) → ℕ
  | p, [] => p
  | p, buf :: iov => tailLen (parkLen p buf.length iov.isEmpty) iov

@[simp] theorem iovLength_cons (buf : List Byte) (iov : List (List Byte)) :
    iovLength (buf :: iov) = buf.length + iovLength iov := by
  simp [iovLength]

@[simp] theorem parkLen_zero (p : ℕ) (push : Bool) : parkLen p 0 push = p := if_pos rfl

/-- Empty vectors change nothing. -/
theorem tailLen_of_empty : ∀ {iov : List (List Byte)} (p : ℕ), iovLength iov = 0 →
    tailLen p iov = p := by
  intro iov
  induction iov with
  | nil => intro p _; rfl
  | cons buf iov ih =>
      intro p h
      rw [iovLength_cons] at h
      have hbuf : buf.length = 0 := by omega
      rw [tailLen, hbuf, parkLen_zero]
      exact ih p (by omega)

/-- Only empty vectors fit into a window of 0. -/
theorem fitsIn_zero {iov : List (List Byte)} : FitsIn iov 0 ↔ iovLength iov = 0 := by
  cases iov with
  | nil => simp [FitsIn, iovLength]
  | cons buf iov =>
      rw [FitsIn, iovLength_cons]
      split
      · rename_i hnil
        simp [hnil]
      · rename_i hne
        have hpos := List.length_pos_of_ne_nil hne
        constructor
        · rintro ⟨hle, -⟩
          omega
        · intro h
          omega

/-- The vectors `iov` are left of `iov₀`, with `sent` bytes taken and `p` bytes in `tx_pending`. -/
structure Left (p₀ : ℕ) (iov₀ : List (List Byte)) (w₀ p : ℕ) (iov : List (List Byte))
    (w sent : ℕ) : Prop where
  sum : sent + iovLength iov = iovLength iov₀
  fits : FitsIn iov w ↔ FitsIn iov₀ w₀
  tail : FitsIn iov w → tailLen p iov = tailLen p₀ iov₀

/-- Where a write of `iov₀` in the window `w₀`, behind `p₀` bytes, has got to. -/
def Partway (t : Tid) (p₀ : ℕ) (iov₀ : List (List Byte)) (w₀ : ℕ) (s : Sys) : Prop :=
  match s.procs t with
  | .writeSend buf w => iov₀ = [buf] ∧ w₀ = w ∧ s.conn.txSide.pendLen = p₀
  | .writevSend iov w sent ret =>
      (sent = 0 → ret = 0) ∧
        (Left p₀ iov₀ w₀ s.conn.txSide.pendLen iov w sent ∨
          -- the window cut a vector
          (w = 0 ∧ ¬ FitsIn iov₀ w₀ ∧ sent < iovLength iov₀))
  | .writeFinish ret =>
      (ret = iovLength iov₀ ↔ FitsIn iov₀ w₀) ∧
        (FitsIn iov₀ w₀ → s.conn.txSide.pendLen = tailLen p₀ iov₀)
  | _ => True

section

variable {s s' : Sys} {t : Tid} {io : Io} {p₀ w₀ : ℕ} {iov₀ : List (List Byte)}

/-- The loop of `tcp_writev` is over. -/
theorem Left.finish {p w sent : ℕ} {iov : List (List Byte)}
    (h : Left p₀ iov₀ w₀ p iov w sent) (hfits : FitsIn iov w ↔ iovLength iov = 0) :
    ((sent : ℤ) = iovLength iov₀ ↔ FitsIn iov₀ w₀) ∧ (FitsIn iov₀ w₀ → p = tailLen p₀ iov₀) := by
  have hsum := h.sum
  rw [← h.fits]
  refine ⟨?_, fun hf => ?_⟩
  · rw [hfits]
    omega
  · rw [← h.tail hf, tailLen_of_empty p (hfits.mp hf)]

/-- `tcp_write` sends its buffer. -/
theorem partway_writeSend (hfit : s.conn.txSide.PendingFits) (halloc : ∀ k, io.alloc k = true)
    {buf : List Byte} {w : ℕ} (h : runWriteSend s t buf w io = .ok s') :
    Partway t s.conn.txSide.pendLen [buf] w s' := by
  obtain ⟨⟨c, ret⟩, hsend, h⟩ := bind_eq_ok.mp h
  cases h
  obtain ⟨hret, hlen⟩ := tcpTxSend_of_alloc halloc hfit hsend
  rw [Partway, Sys.procs_move_self]
  have hfits : FitsIn [buf] w ↔ buf.length ≤ w := by
    rw [FitsIn, FitsIn]
    split
    · rename_i hnil
      simp [hnil, iovLength]
    · exact and_iff_left trivial
  rw [hfits]
  rw [List.length_take] at hret hlen
  refine ⟨?_, fun hle => ?_⟩
  · rw [hret, iovLength_cons]
    simp only [iovLength, List.map_nil, List.sum_nil]
    omega
  · refine hlen.trans ?_
    rw [min_eq_right hle, tailLen, tailLen, decide_eq_true hle]
    rfl

section

variable {iov : List (List Byte)} {w sent : ℕ} {ret : ℤ}

/-- `tcp_writev` returns what it sent, also when that is nothing. -/
theorem writev_result (hret : sent = 0 → ret = 0) :
    (if 0 < sent then (sent : ℤ) else ret) = sent := by
  split
  · rfl
  · rw [hret (by omega)]
    omega

/-- No vector is left, or no window. -/
theorem partway_end (hret : sent = 0 → ret = 0) (hend : iov = [] ∨ w = 0)
    (hleft : Left p₀ iov₀ w₀ s.conn.txSide.pendLen iov w sent ∨
      (w = 0 ∧ ¬ FitsIn iov₀ w₀ ∧ sent < iovLength iov₀)) :
    Partway t p₀ iov₀ w₀
      (s.move s.conn t (.writeFinish (if 0 < sent then (sent : ℤ) else ret))) := by
  rw [Partway, Sys.procs_move_self, writev_result hret]
  rcases hleft with hleft | ⟨-, hnot, hlt⟩
  · apply hleft.finish
    rcases hend with rfl | rfl
    · simp [FitsIn, iovLength]
    · exact fitsIn_zero
  · exact ⟨iff_of_false (by omega) hnot, fun hf => absurd hf hnot⟩

/-- The next vector is empty. -/
theorem partway_empty {c : Conn} (hret : sent = 0 → ret = 0)
    (hlen : c.txSide.pendLen = s.conn.txSide.pendLen)
    (hleft : Left p₀ iov₀ w₀ s.conn.txSide.pendLen ([] :: iov) w sent) :
    Partway t p₀ iov₀ w₀
      (s.move c t (.writeFinish (if 0 < sent then (sent : ℤ) else ret))) := by
  rw [Partway, Sys.procs_move_self, writev_result hret]
  change _ ∧ (_ → c.txSide.pendLen = _)
  rw [hlen]
  apply hleft.finish
  simp [FitsIn]

/-- The next vector is taken, or what the window takes of it. -/
theorem partway_taken {c : Conn} {buf : List Byte} (hbuf : buf ≠ []) (hw : w ≠ 0)
    (hlen : c.txSide.pendLen = parkLen s.conn.txSide.pendLen (min w buf.length)
      (iov.isEmpty && decide (buf.length ≤ w)))
    (hleft : Left p₀ iov₀ w₀ s.conn.txSide.pendLen (buf :: iov) w sent) :
    Partway t p₀ iov₀ w₀ (s.move c t
      (.writevSend iov (w - min w buf.length) (sent + min w buf.length) ret)) := by
  have hpos : 0 < buf.length := List.length_pos_of_ne_nil hbuf
  have hsum := hleft.sum
  rw [iovLength_cons] at hsum
  rw [Partway, Sys.procs_move_self]
  refine ⟨fun hzero => by omega, ?_⟩
  by_cases hle : buf.length ≤ w
  · left
    have hfits := hleft.fits
    have htail := hleft.tail
    rw [FitsIn, if_neg hbuf, and_iff_right hle] at hfits htail
    rw [min_eq_right hle] at hlen ⊢
    refine ⟨by omega, hfits, fun hf => ?_⟩
    rw [← htail hf, tailLen]
    change tailLen c.txSide.pendLen iov = _
    rw [hlen, decide_eq_true hle, Bool.and_true]
  · right
    refine ⟨by omega, ?_, by omega⟩
    rw [← hleft.fits, FitsIn, if_neg hbuf]
    exact fun hf => hle hf.1

/-- **One turn of the loop of `tcp_writev`.** -/
theorem partway_writevSend (hfit : s.conn.txSide.PendingFits) (halloc : ∀ k, io.alloc k = true)
    (hret : sent = 0 → ret = 0)
    (hleft : Left p₀ iov₀ w₀ s.conn.txSide.pendLen iov w sent ∨
      (w = 0 ∧ ¬ FitsIn iov₀ w₀ ∧ sent < iovLength iov₀))
    (h : runWritevSend s t iov w sent ret io = .ok s') : Partway t p₀ iov₀ w₀ s' := by
  cases iov with
  | nil =>
      cases h
      exact partway_end hret (.inl rfl) hleft
  | cons buf iov =>
      rw [runWritevSend] at h
      split at h
      · rename_i hw
        cases h
        exact partway_end hret (.inr hw) hleft
      rename_i hw
      obtain ⟨⟨c, ret'⟩, hsend, h⟩ := bind_eq_ok.mp h
      obtain ⟨hret', hlen⟩ := tcpTxSend_of_alloc halloc hfit hsend
      replace hleft := hleft.resolve_right fun hcut => hw hcut.1
      rw [List.length_take] at hret' hlen
      dsimp only at h
      split at h
      · cases h
        have hnil : buf = [] := List.length_eq_zero_iff.mp (by omega)
        subst hnil
        have hsame : c.txSide.pendLen = s.conn.txSide.pendLen := by simpa using hlen
        have hzero : ret' = 0 := by simpa using hret'
        exact partway_empty (fun _ => hzero) hsame hleft
      · cases h
        have hne : buf ≠ [] := by
          rintro rfl
          simp only [List.length_nil] at hret'
          omega
        have htaken : ret'.toNat = min w buf.length := by omega
        rw [htaken]
        exact partway_taken hne hw hlen hleft

end

/-- **A step during a write.** -/
theorem WriteInv.partway {e : Event} (h : WriteInv s) (hp : Partway t p₀ iov₀ w₀ s)
    (hg : Writing t s e) (hs : sysStep s e = .ok s') : Partway t p₀ iov₀ w₀ s' := by
  have hwriting : (s.procs t).writing := by
    cases e with
    | run => exact hg.1
    | _ => exact hg
  by_cases hown : ∃ io, e = .run t io
  · obtain ⟨io, rfl⟩ := hown
    have halloc : ∀ k, io.alloc k = true := hg.2 rfl
    rw [sysStep] at hs
    split at hs
    · cases hs
      exact hp
    rw [runProc] at hs
    rw [Partway] at hp
    cases hproc : s.procs t with
    | writeSend buf w =>
        rw [hproc] at hs hp
        obtain ⟨rfl, rfl, rfl⟩ := hp
        exact partway_writeSend h.fits halloc hs
    | writevSend iov w sent ret =>
        rw [hproc] at hs hp
        exact partway_writevSend h.fits halloc hp.1 hp.2 hs
    | writeFinish ret =>
        rw [hproc] at hs
        obtain ⟨⟨c, re⟩, -, hs⟩ := bind_eq_ok.mp hs
        cases hs
        have hdone : (s.move c t (.done ret [])).procs t = .done ret [] :=
          Sys.procs_move_self _ _ _ _
        rw [Partway]
        dsimp only
        rw [hdone]
        trivial
    | _ =>
        rw [hproc] at hwriting
        cases hwriting
  · have hne : ∀ io, e ≠ .run t io := fun io he => hown ⟨io, he⟩
    obtain ⟨hproc, hpend⟩ := h.other (Proc.holdsTx_of_writing hwriting) hne hs
    have hlen : s'.conn.txSide.pendLen = s.conn.txSide.pendLen := by
      rw [TxSide.pendLen, TxSide.pendLen, hpend]
    rw [Partway, hproc, hlen]
    exact hp

/-- A write starts with all of its vectors. -/
theorem partway_of_asks {iov : List (List Byte)} {w : ℕ} (h : (s.procs t).asks = some (iov, w)) :
    Partway t s.conn.txSide.pendLen iov w s := by
  rw [Partway]
  cases hproc : s.procs t with
  | writeSend buf winlen =>
      rw [hproc] at h
      cases h
      exact ⟨rfl, rfl, rfl⟩
  | writevSend iov' winlen sent ret =>
      rw [hproc, Proc.asks.eq_def] at h
      split at h
      · rename_i heq
        cases heq
      · rename_i heq
        cases heq
        cases h
        exact ⟨fun _ => rfl, .inl ⟨Nat.zero_add _, Iff.rfl, fun _ => rfl⟩⟩
      · cases h
  | _ =>
      rw [hproc] at h
      cases h

/-- The return of a write. -/
theorem pending_of_writeFinish {ret : ℤ} (hproc : s.procs t = .writeFinish ret)
    (h : sysStep s (.run t io) = .ok s') (hret : s'.procs t = .done ret []) :
    s'.conn.tx.pending = if s.conn.state = .closed then none else s.conn.tx.pending := by
  rw [sysStep] at h
  split at h
  · cases h
    rw [hproc] at hret
    cases hret
  rw [runProc, hproc] at h
  obtain ⟨⟨c, re⟩, hfin, h⟩ := bind_eq_ok.mp h
  cases h
  have hside := (txSide_tcpWriteFinish hfin).2
  change c.txSide.pending = _
  rw [hside, TxSide.unlocked]
  split
  · rfl
  · exact TxSide.pending_trimmed _

end

theorem noTail_cons (p : ℕ) (buf b : List Byte) (iov : List (List Byte)) :
    NoTail p (buf :: b :: iov) ↔ NoTail (parkLen p buf.length false) (b :: iov) := by
  rw [NoTail, NoTail, List.getLast?_cons_cons, List.foldl_cons]

theorem tailLen_eq_zero_iff : ∀ (iov : List (List Byte)) (p : ℕ),
    tailLen p iov = 0 ↔ NoTail p iov := by
  intro iov
  induction iov with
  | nil => intro p; simp [tailLen, NoTail]
  | cons buf iov ih =>
      intro p
      cases iov with
      | nil =>
          by_cases hbuf : buf = []
          · simp [tailLen, NoTail, hbuf]
          · simp [tailLen, NoTail, hbuf, parkLen]
      | cons b iov =>
          rw [noTail_cons, ← ih]
          rfl

/-- **Accepted data is transmitted.**  A write, from the point where it has its window to its
return, without a failed allocation: if it returns all it was asked to write then nothing is left
in `tx_pending`, exactly when, in case the vectors fit, the connection was closed meanwhile or the
last vector takes along what is kept. -/
theorem accepted_data_transmitted_iff {s₀ s s₁ s₂ : Sys} {es fs : List Event} {t : Tid}
    {iov : List (List Byte)} {w : ℕ} {ret : ℤ} {io : Io} (h₀ : s₀.Start)
    (hreach : exec sysStep s₀ es = .ok s) (hasks : (s.procs t).asks = some (iov, w))
    (hwriting : Along sysStep (Writing t) s fs) (hsend : exec sysStep s fs = .ok s₁)
    (hfinish : s₁.procs t = .writeFinish ret) (hlast : sysStep s₁ (.run t io) = .ok s₂)
    (hret : s₂.procs t = .done ret []) :
    (ret = iovLength iov → s₂.conn.tx.pending = none) ↔
      (FitsIn iov w → s₁.conn.state = .closed ∨ NoTail s.conn.txSide.pendLen iov) := by
  have hinv : WriteInv s := by
    refine exec_invariant (G := fun _ _ => True) (I := WriteInv) (fun _ _ _ hi _ hs => hi.step hs)
      ⟨h₀.rxInv, h₀.dialling, h₀.txOwned, ?_⟩ (Along.trivial _ _) hreach
    obtain ⟨iss, hside, -, -⟩ := h₀.txSide
    rw [hside]
    intro m hm
    cases hm
  obtain ⟨hinv₁, hpart⟩ : WriteInv s₁ ∧ Partway t s.conn.txSide.pendLen iov w s₁ := by
    refine exec_invariant (I := fun x => WriteInv x ∧ Partway t s.conn.txSide.pendLen iov w x)
      (fun _ _ _ hi hg hs => ⟨hi.1.step hs, hi.1.partway hi.2 hg hs⟩) ⟨hinv, partway_of_asks hasks⟩
      hwriting hsend
  rw [Partway, hfinish] at hpart
  rw [hpart.1, pending_of_writeFinish hfinish hlast hret]
  refine imp_congr_right fun hf => ?_
  rw [← tailLen_eq_zero_iff, ← hpart.2 hf]
  by_cases hcl : s₁.conn.state = .closed
  · simp [hcl]
  · rw [if_neg hcl, or_iff_right hcl]
    change s₁.conn.txSide.pending = none ↔ _
    exact ⟨TxSide.pendLen_of_none, InFlight.none_of_pendLen hinv₁.fits⟩

/-- A `tcp_write` of 30 bytes leaves nothing behind. -/
theorem accepted_data_transmitted_write :
    let s := final sysStep accepted [.rx (windowFrame 1000) 1 (Io.good 0),
      .call 0 (.write (List.replicate 30 7)), .run 0 (Io.good 0)]
    let s₁ := final sysStep s [.run 0 (Io.good 0)]
    let s₂ := final sysStep s₁ [.run 0 (Io.good 0)]
    s₂.procs 0 = .done 30 [] ∧ s₂.conn.tx.pending = none := by
  intro s s₁ s₂
  have hret : s₂.procs 0 = .done 30 [] := rfl
  have hwriting : Along sysStep (Writing 0) s [.run 0 (Io.good 0)] :=
    ⟨⟨rfl, fun _ _ => rfl⟩, fun _ _ => trivial⟩
  refine ⟨hret, ?_⟩
  have hiff : ((30 : ℤ) = iovLength [List.replicate 30 7] → s₂.conn.tx.pending = none) ↔ _ :=
    accepted_data_transmitted_iff accepted_start (exec_final (by decide)) rfl hwriting
      (exec_final (by decide)) rfl (step_final (by decide)) hret
  exact hiff.mpr (fun _ => .inr (.inl ⟨_, rfl, by decide⟩)) rfl

/-- A `tcp_writev` of 30 bytes and an empty vector, up to the point where it has its window. -/
def emptyTail : Sys :=
  final sysStep accepted [.rx (windowFrame 1000) 1 (Io.good 0),
    .call 0 (.writev [List.replicate 30 7, []]), .run 0 (Io.good 0)]

/-- The sends of that call. -/
def emptyTailSends : List Event := [.run 0 (Io.good 0), .run 0 (Io.good 0)]

theorem emptyTail_writing : Along sysStep (Writing 0) emptyTail emptyTailSends := by
  refine ⟨⟨rfl, fun _ _ => rfl⟩, fun s hs => ⟨⟨?_, fun _ _ => rfl⟩, fun _ _ => trivial⟩⟩
  have hnext : ∀ s ∈ (sysStep emptyTail (.run 0 (Io.good 0))).toOption,
      (s.procs 0).writing = true := by
    decide
  exact hnext s (by rw [hs]; rfl)

/-- It returns 30, and all of the 30 bytes stay in `tx_pending`: nothing is on `txq`. -/
theorem accepted_data_parked : accepted.Start ∧
    exec sysStep accepted [.rx (windowFrame 1000) 1 (Io.good 0),
      .call 0 (.writev [List.replicate 30 7, []]), .run 0 (Io.good 0)] = .ok emptyTail ∧
    (emptyTail.procs 0).asks = some ([List.replicate 30 7, []], 998) ∧
    Along sysStep (Writing 0) emptyTail emptyTailSends ∧
    ∃ s₁ s₂, exec sysStep emptyTail emptyTailSends = .ok s₁ ∧
      s₁.procs 0 = .writeFinish 30 ∧ sysStep s₁ (.run 0 (Io.good 0)) = .ok s₂ ∧
      s₂.procs 0 = .done 30 [] ∧ iovLength [List.replicate 30 7, []] = 30 ∧
      s₂.conn.tx.pending ≠ none ∧ s₂.conn.tx.txq = [] := by
  refine ⟨accepted_start, exec_final (by decide), rfl, emptyTail_writing,
    final sysStep emptyTail emptyTailSends,
    final sysStep (final sysStep emptyTail emptyTailSends) [.run 0 (Io.good 0)],
    exec_final (by decide), rfl, step_final (by decide), rfl, by decide, ?_, ?_⟩
  · decide
  · decide

end Skyloft
