import Skyloft.Net.RxSafety

/-!
# The bound of the out-of-order queue

`tcp_rx_text` looks for the place of an out-of-order segment.  At the end of `rxq_ooo` it compares
the number of the buffers it has passed with `TCP_OOO_MAX_SIZE`; in front of a queued buffer it
compares nothing.

* `goesBefore` — the place is in front of a queued buffer.
* `Overfills` — a segment goes there although the queue is full.
* `ooo_bounded_iff` — the queue keeps its bound along a run exactly when no step overfills it.
-/

namespace Skyloft

open Run Serial

/-- The search of `tcp_rx_text` ends in front of a queued buffer. -/
def goesBefore (m : Mbuf) : List Mbuf → Bool
  | [] => false
  | pos :: rest =>
      if wrapsLt m.segSeq pos.segSeq then true
      else if wrapsLte m.segEnd pos.segEnd then false
      else goesBefore m rest

/-- A segment that is queued at the end passes the whole queue. -/
theorem length_rxInsert {m : Mbuf} {q : List Mbuf} :
    ∀ {q' : List Mbuf} {n : ℕ}, rxInsert m n q = some q' → q'.length = q.length + 1 ∧
      (goesBefore m q = false → n + q.length < tcpOooMaxSize) := by
  induction q with
  | nil =>
      intro q' n h
      rw [rxInsert] at h
      split at h
      · cases h
      · rename_i hsize
        cases h
        exact ⟨rfl, fun _ => by simpa using hsize⟩
  | cons pos rest ih =>
      intro q' n h
      rw [rxInsert] at h
      rw [goesBefore]
      split at h
      · rename_i hlt
        cases h
        exact ⟨rfl, fun hb => by simp [hlt] at hb⟩
      rename_i hlt
      split at h
      · cases h
      · rename_i hle
        obtain ⟨q₁, h₁, rfl⟩ := Option.map_eq_some_iff.mp h
        obtain ⟨hlen, hsize⟩ := ih h₁
        refine ⟨by simp [hlen], fun hb => ?_⟩
        rw [if_neg hlt, if_neg hle] at hb
        have hrest := hsize hb
        simp only [List.length_cons]
        omega

/-- In front of a queued buffer nothing is refused. -/
theorem rxInsert_of_goesBefore {m : Mbuf} {q : List Mbuf} :
    ∀ (n : ℕ), goesBefore m q = true → ∃ q', rxInsert m n q = some q' := by
  induction q with
  | nil =>
      intro n h
      cases h
  | cons pos rest ih =>
      intro n h
      rw [goesBefore] at h
      rw [rxInsert]
      split at h
      · rename_i hlt
        exact ⟨_, if_pos hlt⟩
      rename_i hlt
      split at h
      · cases h
      · rename_i hle
        obtain ⟨q', hq'⟩ := ih (n + 1) h
        exact ⟨pos :: q', by rw [if_neg hlt, if_neg hle, hq']; rfl⟩

/-- The out-of-order queue is within its bound. -/
def OooBounded (s : Sys) : Prop := s.conn.rx.rxqOoo.length ≤ tcpOooMaxSize

/-- A segment comes to a full out-of-order queue and has its place in front of a queued buffer. -/
def Overfills (s : Sys) : Event → Prop
  | .rx f sndNxt _ => ∃ seg, tcpRxParse f = .ok (some seg) ∧ seg.goesToText s.conn sndNxt ∧
      0 < ahead seg.seq s.conn.rcv.nxt ∧ goesBefore seg.mbuf s.conn.rx.rxqOoo = true ∧
      s.conn.rx.rxqOoo.length = tcpOooMaxSize
  | _ => False

/-! ## One segment -/

theorem Drained.length_left {rcv rcv' : RcvVars} {q app left : List Mbuf}
    (h : Drained rcv q rcv' app left) : left.length ≤ q.length := by
  induction h with
  | nil => exact le_refl _
  | stale _ _ ih => exact ih.trans (Nat.le_succ _)
  | wait _ => exact le_refl _
  | take _ _ _ _ ih => exact ih.trans (Nat.le_succ _)

/-- A segment in order makes the queue no longer. -/
theorem TextOf.length_ooo {x x' : RxSide} {m : Mbuf} {used wake : Bool}
    (h : TextOf x m x' used wake) (hle : ¬ 0 < ahead m.segSeq x.rcv.nxt) :
    x'.rx.rxqOoo.length ≤ x.rx.rxqOoo.length := by
  cases h with
  | inOrder _ _ hd => exact hd.length_left
  | queued hpos _ => exact absurd hpos hle
  | unused hpos => exact absurd hpos hle

section

variable {seg : Segment} {c c' : Conn}

theorem NoText.length_ooo (h : NoText seg c c') : c'.rx.rxqOoo.length ≤ c.rx.rxqOoo.length := by
  cases h with
  | quiet hside _ =>
      have hrx : c'.rx = c.rx := congrArg RxSide.rx hside
      rw [hrx]
  | syn _ _ hside =>
      have hrx : c'.rx = c.rx := congrArg RxSide.rx hside
      rw [hrx]
  | reset _ hside =>
      have hooo : c'.rx.rxqOoo = [] := congrArg (fun x : RxSide => x.rx.rxqOoo) hside
      simp [hooo]

/-- The out-of-order queue after the text of a segment that is ahead. -/
theorem TookText.ooo_eq (h : TookText seg c c') (hpos : 0 < ahead seg.seq c.rcv.nxt) :
    some c'.rx.rxqOoo = (rxInsert seg.mbuf 0 c.rx.rxqOoo).or (some c.rx.rxqOoo) := by
  obtain ⟨-, -, -, -, -, -, hside, -, hins⟩ := h
  have hooo := congrArg (fun x : RxSide => some x.rx.rxqOoo) hside
  exact hooo.trans (hins hpos)

/-- The text of a segment leaves the queue within its bound, unless the segment goes in front of a
buffer of a full queue. -/
theorem TookText.bounded_iff (h : TookText seg c c')
    (hb : c.rx.rxqOoo.length ≤ tcpOooMaxSize) :
    c'.rx.rxqOoo.length ≤ tcpOooMaxSize ↔ ¬ (0 < ahead seg.seq c.rcv.nxt ∧
      goesBefore seg.mbuf c.rx.rxqOoo = true ∧ c.rx.rxqOoo.length = tcpOooMaxSize) := by
  by_cases hpos : 0 < ahead seg.seq c.rcv.nxt
  · have hq := h.ooo_eq hpos
    cases hi : rxInsert seg.mbuf 0 c.rx.rxqOoo with
    | none =>
        have hbefore : goesBefore seg.mbuf c.rx.rxqOoo = false := by
          by_contra hb
          obtain ⟨q', hq'⟩ := rxInsert_of_goesBefore 0 (by simpa using hb)
          rw [hi] at hq'
          cases hq'
        rw [hi] at hq
        have hsame : c'.rx.rxqOoo = c.rx.rxqOoo := Option.some.inj hq
        simp [hsame, hbefore, hb]
    | some q' =>
        rw [hi] at hq
        have hnew : c'.rx.rxqOoo = q' := Option.some.inj hq
        obtain ⟨hlen, hsize⟩ := length_rxInsert hi
        rw [hnew]
        cases hbefore : goesBefore seg.mbuf c.rx.rxqOoo with
        | false =>
            have hlt := hsize hbefore
            simp only [Bool.false_eq_true, false_and, and_false, not_false_eq_true, iff_true]
            omega
        | true =>
            simp only [hpos, true_and]
            omega
  · obtain ⟨-, -, -, -, htext, -, hside, -, -⟩ := h
    have hooo : c'.rx.rxqOoo = _ := congrArg (fun x : RxSide => x.rx.rxqOoo) hside
    have hle := htext.length_ooo hpos
    rw [hooo]
    exact iff_of_true (hle.trans hb) (fun h => hpos h.1)

end

/-! ## Runs -/

/-- Whatever is no segment leaves the queue alone or empties it. -/
theorem RxMove.bounded {s s' : Sys} {e : Event} (h : s.RxInv) (hb : OooBounded s)
    (hmove : RxMove s e s') (he : ∀ f sndNxt io, e ≠ .rx f sndNxt io) : OooBounded s' := by
  have hkeep : s'.conn.rx.rxqOoo = s.conn.rx.rxqOoo → OooBounded s' := by
    intro hooo
    rwa [OooBounded, hooo]
  cases hmove with
  | inert hside _ _ => exact hkeep (congrArg (fun x : RxSide => x.rx.rxqOoo) hside)
  | shut _ hside _ _ => exact hkeep (RxSide.shut_keeps hside).2.2.1
  | fail hside _ _ _ =>
      have hooo : s'.conn.rx.rxqOoo = [] := congrArg (fun x : RxSide => x.rx.rxqOoo) hside
      simp [OooBounded, hooo]
  | segment _ _ _ _ => exact absurd rfl (he _ _ _)
  | start _ => exact hb
  | sleep _ _ _ _ => exact hb
  | closed _ _ _ => exact hb
  | pop _ _ _ _ _ _ hside _ => exact hkeep (congrArg (fun x : RxSide => x.rx.rxqOoo) hside)
  | copy _ _ _ => exact hb
  | copyPart _ hp hcopy =>
      obtain ⟨m, m', rest, -, -, -, -, heq⟩ := h.readCopy_eq hp
      rw [heq] at hcopy
      cases hcopy
      exact hb
  | finish _ _ => exact hb

/-- What a frame does is decided by the segment it holds. -/
theorem overfills_iff {s : Sys} {f : Frame} {sndNxt : Seq} {io : Io} {seg : Segment}
    (hf : tcpRxParse f = .ok (some seg)) :
    Overfills s (.rx f sndNxt io) ↔ seg.goesToText s.conn sndNxt ∧
      0 < ahead seg.seq s.conn.rcv.nxt ∧ goesBefore seg.mbuf s.conn.rx.rxqOoo = true ∧
      s.conn.rx.rxqOoo.length = tcpOooMaxSize := by
  constructor
  · rintro ⟨seg', hseg', hover⟩
    rw [hf] at hseg'
    cases hseg'
    exact hover
  · intro hover
    exact ⟨seg, hf, hover⟩

/-- A frame that holds a segment. -/
theorem runRx_of_parse {s : Sys} {f : Frame} {sndNxt : Seq} {io : Io} {seg : Segment}
    (hok : s.conn.RxOk) (hwf : seg.WellFormed) (hf : tcpRxParse f = .ok (some seg)) :
    ∃ s', runRx s f sndNxt io = .ok s' ∧ RxOutcome seg sndNxt s.conn s'.conn := by
  obtain ⟨r, hr, hout⟩ := tcpRxConn_outcome sndNxt io hwf hok
  exact ⟨_, bind_eq_ok.mpr ⟨some seg, hf, bind_eq_ok.mpr ⟨r, hr, rfl⟩⟩, hout⟩

theorem runRx_bounded_iff {s s' : Sys} {f : Frame} {sndNxt : Seq} {io : Io} (h : s.RxInv)
    (hb : OooBounded s) (hstep : runRx s f sndNxt io = .ok s') :
    OooBounded s' ↔ ¬ Overfills s (.rx f sndNxt io) := by
  obtain ⟨o, ho, hwf⟩ := tcpRxParse_spec f
  cases o with
  | none =>
      rw [runRx, ho] at hstep
      cases hstep
      refine iff_of_true hb ?_
      rintro ⟨seg, hseg, -⟩
      rw [ho] at hseg
      cases hseg
  | some seg =>
      obtain ⟨s₁, h₁, hout⟩ := runRx_of_parse h.rxOk (hwf seg rfl).1 ho
      rw [h₁] at hstep
      cases hstep
      rw [overfills_iff ho]
      cases hout with
      | text hgo htook =>
          simp only [hgo, true_and]
          exact htook.bounded_iff hb
      | other hno hnot =>
          exact iff_of_true (hnot.length_ooo.trans hb) (fun h => hno h.1)

/-- **One step** leaves the queue within its bound, unless it overfills it. -/
theorem sysStep_bounded_iff {s s' : Sys} {e : Event} (h : s.RxInv) (hb : OooBounded s)
    (hstep : sysStep s e = .ok s') : OooBounded s' ↔ ¬ Overfills s e := by
  have hmove := sysStep_rxMove h.rxOk hstep
  cases e with
  | rx f sndNxt io => exact runRx_bounded_iff h hb hstep
  | _ => exact iff_of_true (hmove.bounded h hb (by simp)) (fun h => h)

/-- **The bound of the out-of-order queue.**  From every state in which a connection starts, the
queue is within `TCP_OOO_MAX_SIZE` in every state of a run exactly when no step of the run puts a
segment in front of a buffer of a full queue. -/
theorem ooo_bounded_iff {s₀ : Sys} (h₀ : s₀.Start) (es : List Event) :
    Throughout sysStep OooBounded s₀ es ↔ Along sysStep (fun s e => ¬ Overfills s e) s₀ es := by
  have hempty : OooBounded s₀ := by
    obtain ⟨c, rfl, hrx, -⟩ := h₀.fresh
    change c.rx.rxqOoo.length ≤ _
    rw [hrx]
    exact Nat.zero_le _
  refine throughout_iff_along (I := Sys.RxInv) (H := fun _ _ => True) ?_ ?_ h₀.rxInv hempty
    (Along.trivial _ _)
  · intro s e s' hs hb _ hg hstep
    exact ⟨sysStep_rxInv hs hstep, (sysStep_bounded_iff hs hb hstep).mpr hg⟩
  · intro s e hs hb _ hg
    rw [not_not] at hg
    cases e with
    | rx f sndNxt io =>
        obtain ⟨s', hstep, -⟩ := runRx_spec hs.rxOk f sndNxt io
        exact ⟨s', hstep, fun hb' => (runRx_bounded_iff hs hb hstep).mp hb' hg⟩
    | _ => exact absurd hg (fun h => h)

theorem not_overfills {s : Sys} {e : Event} (h : s.conn.rx.rxqOoo.length ≠ tcpOooMaxSize) :
    ¬ Overfills s e := by
  cases e with
  | rx f sndNxt io =>
      rintro ⟨seg, -, -, -, -, hfull⟩
      exact h hfull
  | _ => exact fun h => h

/-- Two segments arrive out of order, the later one first. -/
theorem ooo_bounded_two : Throughout sysStep OooBounded accepted
    [.rx (peerFrame 5 { ack := true } [7]) 1 (Io.good 0),
      .rx (peerFrame 3 { ack := true } [6]) 1 (Io.good 0)] := by
  refine (ooo_bounded_iff accepted_start _).mpr ⟨not_overfills (by decide), ?_⟩
  have hfirst : sysStep accepted (.rx (peerFrame 5 { ack := true } [7]) 1 (Io.good 0)) = .ok _ :=
    step_final (by decide)
  intro s' h
  refine ⟨not_overfills ?_, fun _ _ => trivial⟩
  rw [hfirst] at h
  cases h
  decide

/-! ## Segments that arrive from the last to the first -/

/-- The segment of one byte at a sequence number. -/
def byteSegment (seq : Seq) : Segment :=
  { seq := seq, ack := 1, flags := { ack := true }, win := 1000, len := 1, payload := [0] }

/-- The bytes from sequence number `n + 1` down to 2, each in a segment of its own. -/
def descending : ℕ → List Event
  | 0 => []
  | n + 1 =>
      .rx (peerFrame (BitVec.ofNat 32 (n + 2)) { ack := true } [0]) 1 (Io.good 0) :: descending n

/-- An open connection that misses the byte at 1 and has the bytes from `n + 2` on. -/
structure Gap (n : ℕ) (s : Sys) : Prop where
  inv : s.RxInv
  state : s.conn.state = .established
  nxt : s.conn.rcv.nxt = 1
  wnd : s.conn.rcv.wnd = BitVec.ofNat 32 tcpWin
  front : ∀ m ∈ s.conn.rx.rxqOoo.head?, m.segSeq = BitVec.ofNat 32 (n + 2)

theorem tcpRxParse_byte (seq : Seq) :
    tcpRxParse (peerFrame seq { ack := true } [0]) = .ok (some (byteSegment seq)) := by
  simp [tcpRxParse, peerFrame, Packet.frame, byteSegment]

theorem ahead_ofNat {a b : ℕ} (ha : a < 2 ^ 17) (hb : b < 2 ^ 17) :
    ahead (BitVec.ofNat 32 a) (BitVec.ofNat 32 b) = a - b := by
  have hdist := ahead_add_add (0 : Seq) (m := a) (n := b) (by omega) (by omega)
  rwa [zero_add, zero_add] at hdist

namespace Gap

variable {s : Sys} {n : ℕ}

theorem goesToText (h : Gap (n + 1) s) (hn : n ≤ 2049) :
    (byteSegment (BitVec.ofNat 32 (n + 2))).goesToText s.conn 1 := by
  have hpos : 0 < (byteSegment (BitVec.ofNat 32 (n + 2))).len.toNat := Nat.one_pos
  have hgt : ¬ wrapsGt (1 : Seq) 1 := by decide
  refine ⟨?_, rfl, rfl, rfl, hpos, .inl ⟨by rw [h.state]; rfl, .inr hgt⟩⟩
  have hwin : tcpWin = 64240 := rfl
  have hlo : wrapsLte (BitVec.ofNat 32 1) (BitVec.ofNat 32 (n + 2)) := by
    rw [wrapsLte_iff, ahead_ofNat (by omega) (by omega)]
    omega
  have hhi : wrapsLt (BitVec.ofNat 32 (n + 2)) (BitVec.ofNat 32 1 + BitVec.ofNat 32 tcpWin) := by
    rw [wrapsLt_iff, ← BitVec.ofNat_add, ahead_ofNat (by omega) (by omega)]
    omega
  rw [isAcceptable, h.nxt, h.wnd]
  exact .inl ⟨hlo, hhi⟩

/-- The next segment goes in front of the queue. -/
theorem step (h : Gap (n + 1) s) (hn : n ≤ 2049) : ∃ s',
    sysStep s (.rx (peerFrame (BitVec.ofNat 32 (n + 2)) { ack := true } [0]) 1 (Io.good 0)) =
      .ok s' ∧ Gap n s' ∧ s'.conn.rx.rxqOoo.length = s.conn.rx.rxqOoo.length + 1 := by
  have hparse := tcpRxParse_byte (BitVec.ofNat 32 (n + 2))
  obtain ⟨o, ho, hwf⟩ := tcpRxParse_spec (peerFrame (BitVec.ofNat 32 (n + 2)) { ack := true } [0])
  rw [hparse] at ho
  cases ho
  obtain ⟨s', hstep, hout⟩ : ∃ s', sysStep s (.rx (peerFrame (BitVec.ofNat 32 (n + 2))
      { ack := true } [0]) 1 (Io.good 0)) = .ok s' ∧ RxOutcome _ 1 s.conn s'.conn :=
    runRx_of_parse h.inv.rxOk (hwf _ rfl).1 hparse
  have hpos : 0 < ahead (byteSegment (BitVec.ofNat 32 (n + 2))).seq s.conn.rcv.nxt := by
    rw [h.nxt]
    change 0 < ahead (BitVec.ofNat 32 (n + 2)) (BitVec.ofNat 32 1)
    rw [ahead_ofNat (by omega) (by omega)]
    omega
  have hins : rxInsert (byteSegment (BitVec.ofNat 32 (n + 2))).mbuf 0 s.conn.rx.rxqOoo =
      some ((byteSegment (BitVec.ofNat 32 (n + 2))).mbuf :: s.conn.rx.rxqOoo) := by
    cases hq : s.conn.rx.rxqOoo with
    | nil => rfl
    | cons pos rest =>
        have hfront : pos.segSeq = BitVec.ofNat 32 (n + 1 + 2) := h.front pos (by rw [hq]; rfl)
        have hlt : wrapsLt (BitVec.ofNat 32 (n + 2)) pos.segSeq := by
          rw [hfront, wrapsLt_iff, ahead_ofNat (by omega) (by omega)]
          omega
        rw [rxInsert]
        exact if_pos hlt
  cases hout with
  | other hno _ => exact absurd (h.goesToText hn) hno
  | text _ htook =>
      have hooo := htook.ooo_eq hpos
      rw [hins] at hooo
      replace hooo := Option.some.inj hooo
      obtain ⟨hmove, -, -, -, htext, -, hside, hst, -⟩ := htook
      have hrcv : s'.conn.rcv = s.conn.rcv := by
        have hx := congrArg RxSide.rcv hside
        cases htext with
        | inOrder hle _ _ => exact absurd hpos (not_lt.mpr hle)
        | queued _ _ => exact hx
        | unused _ => exact hx
      refine ⟨s', hstep, ⟨sysStep_rxInv h.inv hstep, ?_, ?_, ?_, ?_⟩, ?_⟩
      · rw [hst]
        rw [h.state] at hmove
        cases hmove
        rfl
      · rw [hrcv, h.nxt]
      · rw [hrcv, h.wnd]
      · rw [hooo]
        rintro m ⟨⟩
        rfl
      · rw [hooo, List.length_cons]

theorem run : ∀ {n : ℕ} {s : Sys}, n ≤ 2049 → Gap n s → ∃ t, exec sysStep s (descending n) = .ok t ∧
    t.conn.rx.rxqOoo.length = s.conn.rx.rxqOoo.length + n := by
  intro n
  induction n with
  | zero =>
      intro s _ _
      exact ⟨s, rfl, rfl⟩
  | succ n ih =>
      intro s hn h
      obtain ⟨s', hstep, hgap, hlen⟩ := h.step (by omega)
      obtain ⟨t, ht, hlen'⟩ := ih (by omega) hgap
      exact ⟨t, exec_cons_ok.mpr ⟨s', hstep, ht⟩, by omega⟩

end Gap

/-- A connection is opened by the peer, which then sends 2049 bytes from the last to the first, the
first of all apart. -/
theorem ooo_overfilled : accepted.Start ∧ ∃ t : Sys,
    exec sysStep accepted (.rx (windowFrame 1000) 1 (Io.good 0) :: descending 2049) = .ok t ∧
      t.conn.rx.rxqOoo.length = 2049 ∧ ¬ OooBounded t := by
  have h₁ : sysStep accepted (.rx (windowFrame 1000) 1 (Io.good 0)) = .ok _ :=
    step_final (by decide)
  have hempty : (final sysStep accepted
      [.rx (windowFrame 1000) 1 (Io.good 0)]).conn.rx.rxqOoo = [] := by decide
  have hgap : Gap 2049 (final sysStep accepted [.rx (windowFrame 1000) 1 (Io.good 0)]) := by
    refine ⟨sysStep_rxInv accepted_start.rxInv h₁, by decide, by decide,
      by decide, ?_⟩
    rw [hempty]
    simp
  obtain ⟨t, ht, hlen⟩ := Gap.run (le_refl 2049) hgap
  rw [hempty, List.length_nil, Nat.zero_add] at hlen
  refine ⟨accepted_start, t, exec_cons_ok.mpr ⟨_, h₁, ht⟩, hlen, ?_⟩
  rw [OooBounded, hlen]
  decide

end Skyloft
