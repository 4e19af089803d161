import Skyloft.Net.TcpIn

/-!
# Reassembly

What the ingress text functions do, said once.  `Clip rcv m m'` describes the
buffer that `tcp_rx_append_text` leaves of `m` under the receive variables `rcv`:
the same bytes, the view moved to `rcv_nxt` and cut at the end of the window.
`Drained` describes a whole run of the drain loop, one constructor for each way a
turn of the loop ends.  `tcpRxText_spec` is what the rest of the development uses
of `tcp_rx_text`.

During a drain the right edge `rcv_nxt + rcv_wnd` of the window stands still, so
the positions of the queued segments are measured from there.

## Main definitions

* `Mbuf.WellFormed` — a buffer whose sequence range covers its data and its FIN.
* `Clip`, `Drained` — the effect of an append and of the drain loop.
* `Ooo` — the invariant of the out-of-order queue.
* `tcpRxAppendText_eq`, `rxDrain_eq`, `tcpRxText_spec` — the functions in these
  terms; each includes that no assertion fails.
-/

namespace Skyloft

open Serial

/-! ## Buffers as they arrive -/

namespace Mbuf

/-- A buffer whose view is the rest of its bytes and whose sequence range covers
the view and the FIN. -/
structure WellFormed (m : Mbuf) : Prop where
  segLen_eq : m.segLen = m.len + m.flags.fin.toNat
  segLen_pos : 0 < m.segLen
  segLen_le : m.segLen ≤ 65536
  whole : m.off + m.len = m.buf.length

theorem segEnd_eq (m : Mbuf) : m.segEnd = m.segSeq + BitVec.ofNat 32 m.segLen := by
  rw [segLen, BitVec.ofNat_toNat, BitVec.setWidth_eq, BitVec.add_comm, BitVec.sub_add_cancel]

/-- The end of a short segment lies its length ahead of its start. -/
theorem ahead_segEnd {m : Mbuf} {c : Seq} (h : m.segLen ≤ 65536)
    (hd : ahead m.segSeq c < 2 ^ 30) : ahead m.segEnd c = ahead m.segSeq c + m.segLen := by
  rw [segEnd_eq]
  refine ahead_add_ofNat ?_ ?_ <;> omega

end Mbuf

/-! ## Appending -/

/-- The receive variables after `k` sequence numbers were accepted. -/
def RcvVars.advance (rcv : RcvVars) (k : ℕ) : RcvVars :=
  { rcv with nxt := rcv.nxt + BitVec.ofNat 32 k, wnd := rcv.wnd - BitVec.ofNat 32 k }

/-- `m'` is what an append under `rcv` leaves of `m`. -/
structure Clip (rcv : RcvVars) (m m' : Mbuf) : Prop where
  buf : m'.buf = m.buf
  flags : m'.flags = m.flags
  segSeq : m'.segSeq = rcv.nxt
  off : (m'.off : ℤ) = m.off - ahead m.segSeq rcv.nxt
  segLen : (m'.segLen : ℤ) = min (ahead m.segSeq rcv.nxt + m.segLen) rcv.wnd.toNat
  len : m'.len + m.flags.fin.toNat = m'.segLen

/-- The receive side after `m'` was put on `rxq`. -/
def RxSide.append (x : RxSide) (m' : Mbuf) : RxSide where
  rcv := x.rcv.advance m'.segLen
  rx := { x.rx with rxq := x.rx.rxq ++ [m'] }
  wndFull := x.wndFull || (x.rcv.advance m'.segLen).wnd == 0
  err := x.err

theorem mbufPull_eq {m : Mbuf} {n : ℕ} (h : n ≤ m.len) :
    ∃ m', mbufPull m n = .ok m' ∧ m'.buf = m.buf ∧ m'.off = m.off + n ∧ m'.len = m.len - n ∧
      m'.segSeq = m.segSeq ∧ m'.segEnd = m.segEnd ∧ m'.flags = m.flags := by
  rw [mbufPull, dif_pos h]
  exact ⟨_, rfl, rfl, rfl, rfl, rfl, rfl, rfl⟩

theorem mbufTrim_eq {m : Mbuf} {n : ℕ} (h : n ≤ m.len) :
    ∃ m', mbufTrim m n = .ok m' ∧ m'.buf = m.buf ∧ m'.off = m.off ∧ m'.len = m.len - n ∧
      m'.segSeq = m.segSeq ∧ m'.flags = m.flags := by
  rw [mbufTrim, dif_pos h]
  exact ⟨_, rfl, rfl, rfl, rfl, rfl, rfl⟩

theorem clipHead_eq {m : Mbuf} {nxt : Seq} (hlo : ahead m.segSeq nxt ≤ 0)
    (hlen : 0 ≤ ahead m.segSeq nxt + m.len) (hm : m.len ≤ 65536) :
    ∃ m₁, clipHead nxt m = .ok m₁ ∧ m₁.buf = m.buf ∧
      (m₁.off : ℤ) = m.off - ahead m.segSeq nxt ∧ (m₁.len : ℤ) = m.len + ahead m.segSeq nxt ∧
      m₁.segSeq = nxt ∧ m₁.segEnd = m.segEnd ∧ m₁.flags = m.flags := by
  by_cases h : wrapsLt m.segSeq nxt
  · have hn := toNat_sub_of_ahead_nonpos (by omega) hlo
    obtain ⟨m', he, hb, ho, hl, hs, hE, hf⟩ :=
      mbufPull_eq (m := m) (n := (nxt - m.segSeq).toNat) (by omega)
    rw [clipHead, if_pos h, he]
    refine ⟨_, rfl, hb, ?_, ?_, ?_, hE, hf⟩
    · dsimp only; omega
    · dsimp only; omega
    · dsimp only
      rw [hs]
      ring
  · have hz : ahead m.segSeq nxt = 0 := by
      rw [wrapsLt_iff] at h
      omega
    refine ⟨m, if_neg h, rfl, ?_, ?_, ahead_eq_zero_iff.mp hz, rfl, rfl⟩ <;> omega

/-- The end of the receive window lies the window ahead of `rcv_nxt`. -/
theorem ahead_add_wnd (nxt : Seq) {wnd : Seq} (hw : wnd.toNat ≤ tcpWin) :
    ahead (nxt + wnd) nxt = wnd.toNat := by
  have hw' : wnd.toNat ≤ 64240 := hw
  have h : nxt + wnd = nxt + BitVec.ofNat 32 wnd.toNat := by simp
  rw [h, ahead_add_ofNat (by omega) (by rw [ahead_self]; omega), ahead_self, zero_add]

theorem clipTail_eq {m : Mbuf} {nxt wnd : Seq} (hw : wnd.toNat ≤ tcpWin) (hs : m.segSeq = nxt)
    (hle : m.segLen ≤ 65536) (hn : m.segLen ≤ m.len + wnd.toNat) :
    ∃ m₁, clipTail (nxt + wnd) m = .ok m₁ ∧ m₁.buf = m.buf ∧ m₁.off = m.off ∧
      m₁.len + m.segLen = m.len + m₁.segLen ∧ m₁.segSeq = nxt ∧
      m₁.segLen = min m.segLen wnd.toNat ∧ m₁.flags = m.flags := by
  have hw' : wnd.toNat ≤ 64240 := hw
  have hedge : ahead (nxt + wnd) nxt = wnd.toNat := ahead_add_wnd _ hw
  have hend : ahead m.segEnd nxt = m.segLen := by
    rw [Mbuf.ahead_segEnd hle (by rw [hs, ahead_self]; omega), hs, ahead_self, zero_add]
  have hd : ahead m.segEnd (nxt + wnd) = m.segLen - wnd.toNat := by
    rw [← hend, ← hedge]
    refine ahead_eq_sub ?_ ?_ <;> omega
  have hd' : ahead (nxt + wnd) m.segEnd = -ahead m.segEnd (nxt + wnd) := ahead_swap (by omega)
  by_cases h : wrapsLt (nxt + wnd) m.segEnd
  · have hlt : wnd.toNat < m.segLen := by
      rw [wrapsLt_iff] at h
      omega
    have hcut := toNat_sub_of_ahead_nonneg (a := m.segEnd) (b := nxt + wnd) (by omega)
    obtain ⟨m', he, hb, ho, hl, hs', hf⟩ :=
      mbufTrim_eq (m := m) (n := (m.segEnd - (nxt + wnd)).toNat) (by omega)
    have hlen : (nxt + wnd - m'.segSeq).toNat = wnd.toNat := by
      rw [hs', hs, BitVec.add_comm, BitVec.add_sub_cancel]
    rw [clipTail, if_pos h, he]
    refine ⟨_, rfl, hb, ho, ?_, hs'.trans hs, ?_, hf⟩
    · simp only [Mbuf.segLen, hlen] at *
      omega
    · simp only [Mbuf.segLen, hlen] at *
      omega
  · have hge : m.segLen ≤ wnd.toNat := by
      rw [wrapsLt_iff] at h
      omega
    exact ⟨m, if_neg h, rfl, rfl, rfl, hs, by omega, rfl⟩

/-- A segment that covers `rcv_nxt` is appended, clipped on both sides.  A FIN
needs an open window: it is the last sequence number of the segment, and no byte
of the buffer stands for it. -/
theorem tcpRxAppendText_eq {c : Conn} {m : Mbuf} (hm : m.WellFormed)
    (hw : c.rcv.wnd.toNat ≤ tcpWin) (hlo : ahead m.segSeq c.rcv.nxt ≤ 0)
    (hhi : 0 < ahead m.segSeq c.rcv.nxt + m.segLen) (hfin : m.flags.fin → c.rcv.wnd ≠ 0) :
    ∃ m', Clip c.rcv m m' ∧ tcpRxAppendText c m = .ok (c.withRx (c.rxSide.append m')) := by
  have hle := hm.segLen_le
  have hseg := hm.segLen_eq
  have hone : m.flags.fin.toNat ≤ 1 := Bool.toNat_le _
  have hfinle : m.flags.fin.toNat ≤ c.rcv.wnd.toNat := by
    cases hf : m.flags.fin with
    | false => exact Nat.zero_le _
    | true =>
        have hne : c.rcv.wnd.toNat ≠ 0 := fun h => hfin hf (BitVec.eq_of_toNat_eq h)
        rw [Bool.toNat_true]
        omega
  have hend := Mbuf.ahead_segEnd (c := c.rcv.nxt) hle (by omega)
  obtain ⟨m₁, e₁, hb₁, ho₁, hl₁, hs₁, hE₁, hf₁⟩ := clipHead_eq hlo (by omega) (by omega)
  have hlen₁ : (m₁.segLen : ℤ) = ahead m.segSeq c.rcv.nxt + m.segLen := by
    rw [Mbuf.segLen, hs₁, hE₁, toNat_sub_of_ahead_nonneg (by omega), hend]
  obtain ⟨m₂, e₂, hb₂, ho₂, hl₂, hs₂, hE₂, hf₂⟩ :=
    clipTail_eq (m := m₁) hw hs₁ (by omega) (by omega)
  have h₁ : wrapsLte m.segSeq c.rcv.nxt := hlo
  have h₂ : wrapsGt m.segEnd c.rcv.nxt := by
    have hswap := ahead_swap (a := m.segEnd) (b := c.rcv.nxt) (by omega)
    rw [wrapsGt_iff]
    omega
  have hlen₂ : m₂.segEnd - m₂.segSeq = BitVec.ofNat 32 m₂.segLen := by
    rw [Mbuf.segLen, BitVec.ofNat_toNat, BitVec.setWidth_eq]
  have h₃ : m₂.segEnd - m₂.segSeq ≤ c.rcv.wnd := by
    rw [BitVec.le_def]
    change m₂.segLen ≤ _
    omega
  refine ⟨m₂, ⟨hb₂.trans hb₁, hf₂.trans hf₁, hs₂, by omega, by omega, by omega⟩, ?_⟩
  rw [tcpRxAppendText, if_neg (not_not.mpr h₁), if_neg (not_not.mpr h₂), e₁]
  change (clipTail (c.rcv.nxt + c.rcv.wnd) m₁ >>= _) = _
  rw [e₂]
  change (if _ then _ else _) = _
  rw [if_pos h₃, hlen₂, Mbuf.segEnd_eq, hs₂]
  rfl

/-! ## The out-of-order queue -/

/-- The out-of-order queue of a connection that takes text: whole segments without
a FIN, sorted by their start, none more than `lo` behind `rcv_nxt` and none more
than a window ahead of it.  Between calls `lo` is zero. -/
structure Ooo (lo : ℤ) (nxt : Seq) (q : List Mbuf) : Prop where
  wf : ∀ m ∈ q, m.WellFormed
  noFin : ∀ m ∈ q, m.flags.fin = false
  lo_lt : ∀ m ∈ q, lo < ahead m.segSeq nxt
  lt_hi : ∀ m ∈ q, ahead m.segSeq nxt < 65536
  sorted : q.Pairwise fun a b => ahead a.segSeq nxt ≤ ahead b.segSeq nxt

namespace Ooo

variable {lo : ℤ} {nxt : Seq} {q : List Mbuf} {m : Mbuf}

theorem nil (lo : ℤ) (nxt : Seq) : Ooo lo nxt [] := by
  constructor <;> simp

theorem tail (h : Ooo lo nxt (m :: q)) : Ooo lo nxt q where
  wf x hx := h.wf x (List.mem_cons_of_mem _ hx)
  noFin x hx := h.noFin x (List.mem_cons_of_mem _ hx)
  lo_lt x hx := h.lo_lt x (List.mem_cons_of_mem _ hx)
  lt_hi x hx := h.lt_hi x (List.mem_cons_of_mem _ hx)
  sorted := (List.pairwise_cons.mp h.sorted).2

/-- A queue whose first segment lies ahead of `rcv_nxt` lies ahead of it. -/
theorem of_head (h : Ooo lo nxt (m :: q)) (hm : 0 < ahead m.segSeq nxt) :
    Ooo 0 nxt (m :: q) where
  wf := h.wf
  noFin := h.noFin
  lt_hi := h.lt_hi
  sorted := h.sorted
  lo_lt x hx := by
    rcases List.mem_cons.mp hx with rfl | hx
    · exact hm
    · exact lt_of_lt_of_le hm ((List.pairwise_cons.mp h.sorted).1 x hx)

/-- The distance of a queued segment after `rcv_nxt` moved forward. -/
theorem ahead_advance (h : Ooo lo nxt q) (hlo : -2 ^ 20 ≤ lo) {k : ℕ} (hk : k ≤ 65536)
    {x : Mbuf} (hx : x ∈ q) :
    ahead x.segSeq (nxt + BitVec.ofNat 32 k) = ahead x.segSeq nxt - k := by
  have h₁ := h.lo_lt x hx
  have h₂ := h.lt_hi x hx
  have hk' : ahead (nxt + BitVec.ofNat 32 k) nxt = k := by
    rw [ahead_add_ofNat (by omega) (by rw [ahead_self]; omega), ahead_self, zero_add]
  rw [← hk']
  refine ahead_eq_sub ?_ ?_ <;> omega

theorem advance (h : Ooo lo nxt q) (hlo : -2 ^ 20 ≤ lo) {k : ℕ} (hk : k ≤ 65536) :
    Ooo (lo - k) (nxt + BitVec.ofNat 32 k) q where
  wf := h.wf
  noFin := h.noFin
  lo_lt x hx := by
    have := h.lo_lt x hx
    rw [h.ahead_advance hlo hk hx]
    omega
  lt_hi x hx := by
    have := h.lt_hi x hx
    rw [h.ahead_advance hlo hk hx]
    omega
  sorted := by
    refine h.sorted.imp_of_mem fun ha hb hab => ?_
    rw [h.ahead_advance hlo hk ha, h.ahead_advance hlo hk hb]
    omega

end Ooo

/-! ## The drain loop -/

/-- A run of the drain loop from `rcv` over a queue: the receive variables at its
end, the buffers appended and the queue left. -/
inductive Drained : RcvVars → List Mbuf → RcvVars → List Mbuf → List Mbuf → Prop
  | nil {rcv} : Drained rcv [] rcv [] []
  /-- The segment has been fully received already. -/
  | stale {rcv pos rest rcv' app left} :
      ahead pos.segSeq rcv.nxt + pos.segLen ≤ 0 → Drained rcv rest rcv' app left →
      Drained rcv (pos :: rest) rcv' app left
  /-- The segment is still out of order. -/
  | wait {rcv pos rest} :
      0 < ahead pos.segSeq rcv.nxt → Drained rcv (pos :: rest) rcv [] (pos :: rest)
  /-- The segment is the next in order. -/
  | take {rcv pos rest m' rcv' app left} :
      ahead pos.segSeq rcv.nxt ≤ 0 → 0 < ahead pos.segSeq rcv.nxt + pos.segLen →
      Clip rcv pos m' → Drained (rcv.advance m'.segLen) rest rcv' app left →
      Drained rcv (pos :: rest) rcv' (m' :: app) left

/-- The receive side after a drain. -/
def RxSide.drained (x : RxSide) (rcv' : RcvVars) (app left : List Mbuf) : RxSide where
  rcv := rcv'
  rx := { x.rx with rxq := x.rx.rxq ++ app, rxqOoo := left }
  wndFull := x.wndFull || (!app.isEmpty && rcv'.wnd == 0)
  err := x.err

theorem Clip.segLen_le_wnd {rcv : RcvVars} {m m' : Mbuf} (h : Clip rcv m m') :
    m'.segLen ≤ rcv.wnd.toNat := by
  have := h.segLen
  omega

theorem RcvVars.toNat_advance_wnd {rcv : RcvVars} {k : ℕ} (h : k ≤ rcv.wnd.toNat) :
    (rcv.advance k).wnd.toNat = rcv.wnd.toNat - k := by
  have := rcv.wnd.isLt
  have hk : (BitVec.ofNat 32 k).toNat = k := by
    rw [BitVec.toNat_ofNat]
    exact Nat.mod_eq_of_lt (by omega)
  rw [advance]
  dsimp only
  rw [BitVec.toNat_sub_of_le (by rw [BitVec.le_def, hk]; exact h), hk]

namespace Drained

variable {rcv rcv' : RcvVars} {q app left : List Mbuf}

theorem rcv_eq_of_nil (h : Drained rcv q rcv' [] left) : rcv' = rcv := by
  generalize ha : ([] : List Mbuf) = app at h
  induction h with
  | nil => rfl
  | stale _ _ ih => exact ih ha
  | wait _ => rfl
  | take => exact absurd ha (by simp)

/-- The window only shrinks in a drain. -/
theorem wnd_le (h : Drained rcv q rcv' app left) : rcv'.wnd.toNat ≤ rcv.wnd.toNat := by
  induction h with
  | nil => exact le_refl _
  | stale _ _ ih => exact ih
  | wait _ => exact le_refl _
  | take _ _ hc _ ih =>
      rw [RcvVars.toNat_advance_wnd hc.segLen_le_wnd] at ih
      omega

theorem sublist (h : Drained rcv q rcv' app left) : left.Sublist q := by
  induction h with
  | nil => exact List.Sublist.refl _
  | stale _ _ ih => exact ih.cons _
  | wait _ => exact List.Sublist.refl _
  | take _ _ _ _ ih => exact ih.cons _

end Drained

theorem RxSide.drained_append {x : RxSide} {m' : Mbuf} {q : List Mbuf} {rcv' : RcvVars}
    {app left : List Mbuf} (h : Drained (x.rcv.advance m'.segLen) q rcv' app left) :
    (x.append m').drained rcv' app left = x.drained rcv' (m' :: app) left := by
  have hfull : ((x.rcv.advance m'.segLen).wnd == 0 || (!app.isEmpty && rcv'.wnd == 0)) =
      (rcv'.wnd == 0) := by
    cases app with
    | nil => rw [h.rcv_eq_of_nil]; simp
    | cons a app =>
        have hle := h.wnd_le
        cases hw : ((x.rcv.advance m'.segLen).wnd == 0) with
        | false => simp
        | true =>
            rw [eq_of_beq hw] at hle
            have hz : rcv'.wnd = 0 := BitVec.eq_of_toNat_eq (Nat.le_zero.mp hle)
            simp [hz]
  simp only [RxSide.drained, RxSide.append, List.append_assoc, List.singleton_append, Bool.or_assoc,
    hfull, List.isEmpty_cons, Bool.not_false, Bool.true_and]

/-- **The drain loop.**  `W` is the window at the start of the call; as the right
edge of the window stands still, no queued segment falls more than `W` less the
current window behind. -/
theorem rxDrain_eq {W : ℕ} (hW : W ≤ tcpWin) (pushed : Bool) :
    ∀ (q : List Mbuf) (c : Conn) (wake : Bool), c.rcv.wnd.toNat ≤ W →
      Ooo (c.rcv.wnd.toNat - W) c.rcv.nxt q →
      ∃ rcv' app left, Drained c.rcv q rcv' app left ∧ Ooo 0 rcv'.nxt left ∧
        rxDrain pushed c wake q =
          .ok (c.withRx (c.rxSide.drained rcv' app left), wake || (pushed && !app.isEmpty)) := by
  have hW' : W ≤ 64240 := hW
  intro q
  induction q with
  | nil =>
      intro c wake _ _
      refine ⟨c.rcv, [], [], .nil, Ooo.nil _ _, ?_⟩
      simp [rxDrain, RxSide.drained, Conn.withRx, Conn.rxSide]
  | cons pos rest ih =>
      intro c wake hwnd hq
      have hlo := hq.lo_lt pos List.mem_cons_self
      have hhi := hq.lt_hi pos List.mem_cons_self
      have hwf := hq.wf pos List.mem_cons_self
      have hle := hwf.segLen_le
      have hend := Mbuf.ahead_segEnd (c := c.rcv.nxt) hle (by omega)
      by_cases h₁ : wrapsLte pos.segEnd c.rcv.nxt
      · obtain ⟨rcv', app, left, hd, ho, he⟩ := ih c wake hwnd hq.tail
        refine ⟨rcv', app, left, .stale ?_ hd, ho, ?_⟩
        · rw [wrapsLte_iff] at h₁
          omega
        · rw [rxDrain, if_pos h₁, he]
      · have hswap := ahead_swap (a := pos.segSeq) (b := c.rcv.nxt) (by omega)
        by_cases h₂ : wrapsGt pos.segSeq c.rcv.nxt
        · have hpos : 0 < ahead pos.segSeq c.rcv.nxt := by
            rw [wrapsGt_iff] at h₂
            omega
          refine ⟨c.rcv, [], pos :: rest, .wait hpos, hq.of_head hpos, ?_⟩
          rw [rxDrain, if_neg h₁, if_pos h₂]
          simp [RxSide.drained, Conn.withRx, Conn.rxSide]
        · rw [wrapsLte_iff] at h₁
          rw [wrapsGt_iff] at h₂
          have hfin : pos.flags.fin = true → c.rcv.wnd ≠ 0 := by
            rw [hq.noFin pos List.mem_cons_self]
            simp
          obtain ⟨m', hc, he⟩ :=
            tcpRxAppendText_eq hwf (by omega) (by omega) (by omega) hfin
          have hk := hc.segLen_le_wnd
          have hwnd' := RcvVars.toNat_advance_wnd hk
          have hq' : Ooo ((c.rcv.advance m'.segLen).wnd.toNat - W) (c.rcv.advance m'.segLen).nxt
              rest := by
            have hadv := hq.tail.advance (by omega) (k := m'.segLen) (by omega)
            have hcast : (((c.rcv.advance m'.segLen).wnd.toNat : ℤ) - W) =
                c.rcv.wnd.toNat - W - m'.segLen := by omega
            rw [hcast]
            exact hadv
          obtain ⟨rcv', app, left, hd, ho, he'⟩ := ih (c.withRx (c.rxSide.append m'))
            (wake || pushed)
            (by change (c.rcv.advance m'.segLen).wnd.toNat ≤ W; omega) hq'
          refine ⟨rcv', m' :: app, left, .take (by omega) (by omega) hc hd, ho, ?_⟩
          rw [rxDrain, if_neg (by rw [wrapsLte_iff]; exact h₁),
            if_neg (by rw [wrapsGt_iff]; exact h₂), he]
          change rxDrain pushed (c.withRx (c.rxSide.append m')) (wake || pushed) rest = _
          rw [he', Conn.rxSide_withRx, RxSide.drained_append hd]
          cases pushed <;> simp

/-! ## Insertion -/

theorem mem_of_rxInsert {m x : Mbuf} :
    ∀ {q q' : List Mbuf} {n : ℕ}, rxInsert m n q = some q' → x ∈ q' → x = m ∨ x ∈ q := by
  intro q
  induction q with
  | nil =>
      intro q' n h hx
      rw [rxInsert] at h
      split at h
      · exact absurd h (by simp)
      · obtain rfl := Option.some.inj h
        exact .inl (by simpa using hx)
  | cons pos rest ih =>
      intro q' n h hx
      rw [rxInsert] at h
      split at h
      · obtain rfl := Option.some.inj h
        exact List.mem_cons.mp hx
      · split at h
        · exact absurd h (by simp)
        · obtain ⟨q₁, h₁, rfl⟩ := Option.map_eq_some_iff.mp h
          rcases List.mem_cons.mp hx with rfl | hx
          · exact .inr List.mem_cons_self
          · exact (ih h₁ hx).imp_right (List.mem_cons_of_mem _)

/-- Where an out-of-order segment is queued, the queue stays sorted. -/
theorem pairwise_rxInsert {m : Mbuf} {nxt : Seq} (h0 : 0 < ahead m.segSeq nxt)
    (h1 : ahead m.segSeq nxt < 65536) :
    ∀ {q q' : List Mbuf} {n : ℕ}, Ooo 0 nxt q → rxInsert m n q = some q' →
      q'.Pairwise fun a b => ahead a.segSeq nxt ≤ ahead b.segSeq nxt := by
  intro q
  induction q with
  | nil =>
      intro q' n _ h
      rw [rxInsert] at h
      split at h
      · exact absurd h (by simp)
      · obtain rfl := Option.some.inj h
        simp
  | cons pos rest ih =>
      intro q' n hq h
      have hlo := hq.lo_lt pos List.mem_cons_self
      have hhi := hq.lt_hi pos List.mem_cons_self
      have hall := (List.pairwise_cons.mp hq.sorted).1
      have hd : ahead m.segSeq pos.segSeq = ahead m.segSeq nxt - ahead pos.segSeq nxt := by
        refine ahead_eq_sub ?_ ?_ <;> omega
      rw [rxInsert] at h
      split at h
      · rename_i hlt
        rw [wrapsLt_iff] at hlt
        obtain rfl := Option.some.inj h
        refine List.pairwise_cons.mpr ⟨?_, hq.sorted⟩
        intro x hx
        rcases List.mem_cons.mp hx with rfl | hx
        · omega
        · have := hall x hx
          omega
      · rename_i hge
        rw [wrapsLt_iff] at hge
        split at h
        · exact absurd h (by simp)
        · obtain ⟨q₁, h₁, rfl⟩ := Option.map_eq_some_iff.mp h
          refine List.pairwise_cons.mpr ⟨?_, ih hq.tail h₁⟩
          intro x hx
          rcases mem_of_rxInsert h₁ hx with rfl | hx
          · omega
          · exact hall x hx

theorem Ooo.insert {m : Mbuf} {nxt : Seq} {q q' : List Mbuf} {n : ℕ} (hm : m.WellFormed)
    (hf : m.flags.fin = false) (h0 : 0 < ahead m.segSeq nxt) (h1 : ahead m.segSeq nxt < 65536)
    (hq : Ooo 0 nxt q) (h : rxInsert m n q = some q') : Ooo 0 nxt q' := by
  have hmem : ∀ x ∈ q', x = m ∨ x ∈ q := fun x hx => mem_of_rxInsert h hx
  have hs := pairwise_rxInsert h0 h1 hq h
  refine ⟨fun x hx => ?_, fun x hx => ?_, fun x hx => ?_, fun x hx => ?_, hs⟩
  · rcases hmem x hx with rfl | hx
    exacts [hm, hq.wf x hx]
  · rcases hmem x hx with rfl | hx
    exacts [hf, hq.noFin x hx]
  · rcases hmem x hx with rfl | hx
    exacts [h0, hq.lo_lt x hx]
  · rcases hmem x hx with rfl | hx
    exacts [h1, hq.lt_hi x hx]

/-! ## Segments -/

/-- What the length checks in front of the lock guarantee. -/
structure Segment.WellFormed (s : Segment) : Prop where
  len_eq : s.len.toNat = s.payload.length + s.flags.fin.toNat
  len_le : s.len.toNat ≤ 65536

/-- The buffer in which the text of a segment is handed to `tcp_rx_text`. -/
def Segment.mbuf (s : Segment) : Mbuf := Mbuf.ofPayload s.payload s.seq (s.seq + s.len) s.flags

/-- **The header handling does not fault**: options longer than the segment were
dropped by the length check, whose subtraction wraps to a large number. -/
theorem tcpRxParse_spec (f : Frame) :
    ∃ o, tcpRxParse f = .ok o ∧ ∀ s ∈ o, s.WellFormed ∧ s.seq = f.seq ∧ s.flags = f.flags := by
  have hip := f.ipLen.isLt
  have hoff := f.dataOff.isLt
  rw [tcpRxParse]
  dsimp only
  split
  · exact ⟨none, rfl, by simp⟩
  rename_i hbody
  split
  · exact ⟨none, rfl, by simp⟩
  rename_i hl4
  split
  · exact ⟨none, rfl, by simp⟩
  rename_i hhdr
  split
  · exact ⟨none, rfl, by simp⟩
  rename_i hlen
  have hm : (f.body.take ((f.ipLen - 20).toNat - 20)).length = (f.ipLen - 20).toNat - 20 := by
    rw [List.length_take]
    omega
  have hl4' : (f.ipLen - 20).toNat = (65536 - 20 + f.ipLen.toNat) % 65536 := by
    rw [BitVec.toNat_sub]
    rfl
  have hsub : (f.ipLen.setWidth 32 - 20 - BitVec.ofNat 32 (f.dataOff.toNat * 4)).toNat =
      (2 ^ 32 - f.dataOff.toNat * 4 + (2 ^ 32 - 20 + f.ipLen.toNat) % 2 ^ 32) % 2 ^ 32 := by
    rw [BitVec.toNat_sub, BitVec.toNat_sub, BitVec.toNat_setWidth, BitVec.toNat_ofNat,
      Nat.mod_eq_of_lt (a := f.ipLen.toNat) (by omega),
      Nat.mod_eq_of_lt (a := f.dataOff.toNat * 4) (by omega)]
    rfl
  rw [hm, hsub] at hlen
  rw [hm, if_pos (by omega)]
  refine ⟨_, rfl, ?_⟩
  rintro s ⟨⟩
  refine ⟨⟨?_, ?_⟩, rfl, rfl⟩
  · dsimp only
    rw [List.length_drop, hm]
    cases f.flags.fin with
    | false => simp only [Bool.false_eq_true, if_false, Bool.toNat_false]; omega
    | true =>
        simp only [if_true, Bool.toNat_true]
        rw [BitVec.toNat_add, hsub]
        change (_ + 1) % _ = _
        omega
  · dsimp only
    cases f.flags.fin with
    | false => simp only [Bool.false_eq_true, if_false]; omega
    | true =>
        simp only [if_true]
        rw [BitVec.toNat_add, hsub]
        change (_ + 1) % _ ≤ _
        omega

namespace Segment.WellFormed

variable {s : Segment}

theorem segLen_mbuf (s : Segment) : s.mbuf.segLen = s.len.toNat := by
  rw [Segment.mbuf, Mbuf.ofPayload, Mbuf.segLen, BitVec.add_comm, BitVec.add_sub_cancel]

theorem mbuf (h : s.WellFormed) (hpos : 0 < s.len.toNat) : s.mbuf.WellFormed where
  segLen_eq := (segLen_mbuf s).trans h.len_eq
  segLen_pos := by rw [segLen_mbuf]; exact hpos
  segLen_le := by rw [segLen_mbuf]; exact h.len_le
  whole := Nat.zero_add _

end Segment.WellFormed

/-- What the acceptability test leaves of the positions of a segment with text. -/
theorem isAcceptable.bounds {rcv : RcvVars} {len seq : Seq} (h : isAcceptable rcv len seq)
    (hw : rcv.wnd.toNat ≤ tcpWin) (hlen : len.toNat ≤ 65536) (hpos : 0 < len.toNat) :
    rcv.wnd ≠ 0 ∧ -(len.toNat : ℤ) < ahead seq rcv.nxt ∧ ahead seq rcv.nxt < rcv.wnd.toNat := by
  have hw' : rcv.wnd.toNat ≤ 64240 := hw
  have hne : len ≠ 0 := by
    rintro rfl
    exact absurd hpos (by simp)
  rw [isAcceptable, if_neg (fun h => hne h.1), if_neg hne] at h
  split at h
  · exact h.elim
  rename_i hwnd
  have hwnd' : rcv.wnd.toNat ≠ 0 := fun h => hwnd (BitVec.eq_of_toNat_eq h)
  refine ⟨hwnd, ?_⟩
  -- everything is measured by the unsigned offset `x` of the segment
  generalize hx : seq - rcv.nxt = x at *
  have hseq : seq = rcv.nxt + x := by rw [← hx]; ring
  have hxlt := x.isLt
  have e₁ : rcv.nxt - seq = -x := by rw [hseq]; ring
  have e₂ : seq - (rcv.nxt + rcv.wnd) = x - rcv.wnd := by rw [hseq]; ring
  have e₃ : rcv.nxt - (seq + len - 1) = 1 - (x + len) := by rw [hseq]; ring
  have e₄ : seq + len - 1 - (rcv.nxt + rcv.wnd) = x + len - 1 - rcv.wnd := by rw [hseq]; ring
  have hone : (1 : Seq).toNat = 1 := rfl
  simp only [wrapsLte, wrapsLt, ahead, hx, e₁, e₂, e₃, e₄, BitVec.toInt_eq_toNat_cond,
    BitVec.toNat_sub, BitVec.toNat_add, BitVec.toNat_neg, hone] at h ⊢
  omega

/-! ## Segment text -/

/-- How `tcp_rx_text` ends for an acceptable segment: the segment is the next in
order and what it makes contiguous is drained after it, or it is queued, or it is
not used. -/
inductive TextOf (x : RxSide) (m : Mbuf) : RxSide → Bool → Bool → Prop
  | inOrder {m' : Mbuf} {rcv' : RcvVars} {app left : List Mbuf} :
      ahead m.segSeq x.rcv.nxt ≤ 0 → Clip x.rcv m m' →
      Drained (x.rcv.advance m'.segLen) x.rx.rxqOoo rcv' app left →
      TextOf x m (x.drained rcv' (m' :: app) left) true (m.flags.pushed || rcv'.wnd == 0)
  | queued {ooo : List Mbuf} :
      0 < ahead m.segSeq x.rcv.nxt → rxInsert m 0 x.rx.rxqOoo = some ooo →
      TextOf x m { x with rx := { x.rx with rxqOoo := ooo } } true false
  | unused : 0 < ahead m.segSeq x.rcv.nxt → TextOf x m x false false

/-- An out-of-order segment makes nothing contiguous. -/
theorem rxDrain_of_ahead {c : Conn} {q : List Mbuf} (pushed wake : Bool)
    (hq : ∀ m ∈ q.head?, m.WellFormed ∧ 0 < ahead m.segSeq c.rcv.nxt ∧
      ahead m.segSeq c.rcv.nxt < 65536) :
    rxDrain pushed c wake q = .ok ({ c with rx := { c.rx with rxqOoo := q } }, wake) := by
  cases q with
  | nil => rfl
  | cons pos rest =>
      obtain ⟨hwf, h0, h1⟩ := hq pos rfl
      have hle := hwf.segLen_le
      have hend := Mbuf.ahead_segEnd (c := c.rcv.nxt) hle (by omega)
      have hswap := ahead_swap (a := pos.segSeq) (b := c.rcv.nxt) (by omega)
      rw [rxDrain, if_neg (by rw [wrapsLte_iff]; omega), if_pos (by rw [wrapsGt_iff]; omega)]

/-- **`tcp_rx_text`** on an acceptable segment: no assertion fails, and the queue
keeps its invariant unless the segment carries a FIN. -/
theorem tcpRxText_spec {c : Conn} {m : Mbuf} (hm : m.WellFormed) (hw : c.rcv.wnd.toNat ≤ tcpWin)
    (ho : Ooo 0 c.rcv.nxt c.rx.rxqOoo) (hwnd : c.rcv.wnd ≠ 0)
    (hlo : -(m.segLen : ℤ) < ahead m.segSeq c.rcv.nxt)
    (hhi : ahead m.segSeq c.rcv.nxt < c.rcv.wnd.toNat) :
    ∃ x used wake, tcpRxText c m = .ok ⟨c.withRx x, used, wake⟩ ∧ TextOf c.rxSide m x used wake ∧
      (m.flags.fin = false → Ooo 0 x.rcv.nxt x.rx.rxqOoo) ∧
      (0 < ahead m.segSeq c.rcv.nxt → some x.rx.rxqOoo =
        (rxInsert m 0 c.rx.rxqOoo).or (some c.rx.rxqOoo)) := by
  have hw' : c.rcv.wnd.toNat ≤ 64240 := hw
  rw [tcpRxText, if_neg hwnd]
  by_cases h : wrapsLte m.segSeq c.rcv.nxt
  · obtain ⟨m', hc, he⟩ := tcpRxAppendText_eq hm hw h (by omega) fun _ => hwnd
    have hk := hc.segLen_le_wnd
    have hwnd' := RcvVars.toNat_advance_wnd hk
    have hq' : Ooo ((c.rcv.advance m'.segLen).wnd.toNat - c.rcv.wnd.toNat)
        (c.rcv.advance m'.segLen).nxt c.rx.rxqOoo := by
      have hadv := ho.advance (by omega) (k := m'.segLen) (by omega)
      have hcast : (((c.rcv.advance m'.segLen).wnd.toNat : ℤ) - c.rcv.wnd.toNat) =
          0 - m'.segLen := by omega
      rw [hcast]
      exact hadv
    obtain ⟨rcv', app, left, hd, ho', he'⟩ := rxDrain_eq hw m.flags.pushed c.rx.rxqOoo
      (c.withRx (c.rxSide.append m')) m.flags.pushed
      (by change (c.rcv.advance m'.segLen).wnd.toNat ≤ _; omega) hq'
    rw [if_pos h, he]
    refine ⟨_, _, _, ?_, .inOrder h hc hd, fun _ => ho', fun hpos => absurd h (not_le.mpr hpos)⟩
    change (rxDrain m.flags.pushed (c.withRx (c.rxSide.append m')) m.flags.pushed c.rx.rxqOoo
      >>= _) = _
    rw [he', Conn.rxSide_withRx, RxSide.drained_append hd]
    change Except.ok _ = _
    cases m.flags.pushed <;> simp [RxSide.drained, Conn.withRx, Conn.rxSide]
  · have hpos : 0 < ahead m.segSeq c.rcv.nxt := by
      rw [wrapsLte_iff] at h
      omega
    have hlt : ahead m.segSeq c.rcv.nxt < 65536 := by omega
    rw [if_neg h]
    cases hi : rxInsert m 0 c.rx.rxqOoo with
    | none => exact ⟨c.rxSide, _, _, rfl, .unused hpos, fun _ => ho, fun _ => rfl⟩
    | some ooo =>
        have hhead : ∀ x ∈ ooo.head?, x.WellFormed ∧ 0 < ahead x.segSeq c.rcv.nxt ∧
            ahead x.segSeq c.rcv.nxt < 65536 := by
          intro x hx
          rcases mem_of_rxInsert hi (List.mem_of_mem_head? hx) with rfl | hx
          · exact ⟨hm, hpos, hlt⟩
          · exact ⟨ho.wf x hx, ho.lo_lt x hx, ho.lt_hi x hx⟩
        dsimp only
        rw [rxDrain_of_ahead _ _ hhead]
        have hz : (c.rcv.wnd == 0) = false := by simpa using hwnd
        refine ⟨{ c.rxSide with rx := { c.rx with rxqOoo := ooo } }, true, false, ?_,
          .queued hpos hi, fun hf => ho.insert hm hf hpos hlt hi, fun _ => rfl⟩
        change Except.ok (RxText.mk _ true (false || (c.rcv.wnd == 0))) = _
        rw [hz]
        rfl

end Skyloft
