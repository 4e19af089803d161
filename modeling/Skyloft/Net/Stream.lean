import Skyloft.Lib.Slice
import Skyloft.Net.RxSafety

/-!
# Reassembly of a byte stream

The peer sends an unbounded sequence of bytes and cuts its segments from it.  A
`Tracked` state remembers the bytes that `tcp_read` calls have taken off `rxq`, so
the offset of `rcv_nxt` in the stream is a natural number that never wraps; a
buffer is measured from there by its signed distance.  `StreamInv` relates the
receive side to the stream, and `stream_reassembled` reads the properties of a
connection off it.

A sequence number stands for every 2^32-nd byte of the stream, so a segment has to
arrive while its offset is less than 2^31 from the one of `rcv_nxt`;
`reassembly_aliases` shows what happens to one that is cut further on.

## Main definitions

* `Tracked`, `trackStep` — the system with the bytes that reads have taken.
* `CutFrom` — the condition on the segments that arrive.
* `StreamInv` — the invariant.
-/

namespace Skyloft

open Run Serial Slice

/-! ## The bytes taken by reads -/

/-- The bytes of a queue, in order. -/
def rxData (q : List Mbuf) : List Byte := (q.map Mbuf.data).flatten

@[simp] theorem rxData_nil : rxData [] = [] := rfl

@[simp] theorem rxData_cons (m : Mbuf) (q : List Mbuf) : rxData (m :: q) = m.data ++ rxData q := rfl

@[simp] theorem rxData_append (q r : List Mbuf) : rxData (q ++ r) = rxData q ++ rxData r := by
  simp [rxData]

@[simp] theorem length_rxData (q : List Mbuf) : (rxData q).length = rxBytes q :=
  length_flatten_data q

/-- The bytes that a step moves from `rxq` to a reader: the buffers that
`tcp_read_wait` pops, and what `tcp_read` strips from the one it reads in part. -/
def takenIn (s s' : Sys) : Event → List Byte
  | .run t _ =>
      match s.procs t, s'.procs t with
      | .readWait _, .readCopy _ q _ => rxData q
      | .readCopy _ q true, .readFinish bytes => bytes.drop (rxBytes q)
      | _, _ => []
  | _ => []

/-- A system with the bytes that `tcp_read` calls have taken so far. -/
structure Tracked where
  sys : Sys
  taken : List Byte

def trackStep (t : Tracked) (e : Event) : Except Fault Tracked := do
  let s' ← sysStep t.sys e
  return { sys := s', taken := t.taken ++ takenIn t.sys s' e }

/-- The bytes taken by reads and those on `rxq`.  Their number is the offset of
`rcv_nxt` in the stream. -/
def Tracked.received (t : Tracked) : List Byte := t.taken ++ rxData t.sys.conn.rx.rxq

/-! ## Segments cut from a stream -/

variable {σ : ℕ → Byte}

/-- The segment carries the bytes of the stream at an offset that its sequence
number stands for, less than half the circle from `pos`. -/
def Segment.CutAt (σ : ℕ → Byte) (irs : Seq) (pos : ℕ) (seg : Segment) : Prop :=
  ∃ o : ℕ, seg.seq = irs + 1 + BitVec.ofNat 32 o ∧ seg.payload = slice σ o seg.payload.length ∧
    -2 ^ 31 ≤ (o : ℤ) - pos ∧ (o : ℤ) - pos < 2 ^ 31

/-- Near `rcv_nxt` the sequence number determines the offset. -/
theorem Segment.cutAt_iff {irs : Seq} {pos : ℕ} {seg : Segment} : seg.CutAt σ irs pos ↔
    0 ≤ pos + ahead seg.seq (irs + 1 + BitVec.ofNat 32 pos) ∧ seg.payload =
      slice σ (pos + ahead seg.seq (irs + 1 + BitVec.ofNat 32 pos)).toNat seg.payload.length := by
  constructor
  · rintro ⟨o, hseq, hdata, hlo, hhi⟩
    have ho : (pos : ℤ) + ahead seg.seq (irs + 1 + BitVec.ofNat 32 pos) = o := by
      rw [hseq, ahead_add_add _ (by omega) (by omega)]
      omega
    rw [ho]
    exact ⟨by omega, hdata⟩
  · rintro ⟨h0, hdata⟩
    have hlo := le_two_mul_ahead seg.seq (irs + 1 + BitVec.ofNat 32 pos)
    have hhi := two_mul_ahead_lt seg.seq (irs + 1 + BitVec.ofNat 32 pos)
    refine ⟨_, eq_of_ahead_eq (c := irs + 1 + BitVec.ofNat 32 pos) ?_, hdata, by omega, by omega⟩
    rw [ahead_add_add _ (by omega) (by omega)]
    omega

instance (irs : Seq) (pos : ℕ) (seg : Segment) : Decidable (seg.CutAt σ irs pos) :=
  decidable_of_iff' _ Segment.cutAt_iff

/-- The segments that the connection accepts are cut from the stream and carry no
FIN, and `tcp_conn_err` reports an error. -/
def CutFrom (σ : ℕ → Byte) (t : Tracked) : Event → Prop
  | .rx f _ _ =>
      match tcpRxParse f with
      | .ok (some seg) => t.sys.conn.state = .synSent ∨
          (isAcceptable t.sys.conn.rcv seg.len seg.seq →
            seg.flags.fin = false ∧ seg.CutAt σ t.sys.conn.rcv.irs t.received.length)
      | _ => True
  | .netErr err _ => err ≠ 0
  | _ => True

instance (t : Tracked) (e : Event) : Decidable (CutFrom σ t e) := by
  unfold CutFrom
  split
  · split <;> infer_instance
  all_goals infer_instance

/-- The buffer holds the bytes of the stream where its distance from `rcv_nxt`,
which has the offset `pos`, says. -/
def Mbuf.Holds (σ : ℕ → Byte) (pos : ℕ) (nxt : Seq) (m : Mbuf) : Prop :=
  ∃ o : ℕ, (o : ℤ) = pos + ahead m.segSeq nxt ∧ m.data = slice σ o m.len

/-! ## Text -/

/-- What an append leaves of a buffer are the next bytes of the stream. -/
theorem Clip.data_eq {rcv : RcvVars} {m m' : Mbuf} {pos : ℕ} (h : Clip rcv m m')
    (hm : m.WellFormed) (hf : m.flags.fin = false) (hlo : ahead m.segSeq rcv.nxt ≤ 0)
    (hd : m.Holds σ pos rcv.nxt) : m'.data = slice σ pos m'.len ∧ m'.segLen = m'.len := by
  obtain ⟨o, ho, hdata⟩ := hd
  have hlen := h.len
  have hseg := h.segLen
  have hsegLen := hm.segLen_eq
  have hoff := h.off
  have hwhole := hm.whole
  simp only [hf, Bool.toNat_false, Nat.add_zero] at hlen hsegLen
  obtain ⟨d, hd⟩ : ∃ d : ℕ, (d : ℤ) = -ahead m.segSeq rcv.nxt := ⟨_, Int.toNat_of_nonneg (by omega)⟩
  have hbuf : m.buf.drop m.off = slice σ o m.len := by
    rw [← hdata, Mbuf.data, List.take_of_length_le (by rw [List.length_drop]; omega)]
  have hoff' : m'.off = m.off + d := by omega
  have hpos : pos = o + d := by omega
  refine ⟨?_, hlen.symm⟩
  rw [Mbuf.data, h.buf, hoff', ← List.drop_drop, hbuf, drop_slice _ _ _ (by omega),
    take_slice _ _ _ (by omega), hpos]

/-- A buffer keeps its place in the stream when `rcv_nxt` moves. -/
theorem Mbuf.Holds.advance {lo : ℤ} {nxt : Seq} {q : List Mbuf} {pos k : ℕ} (hq : Ooo lo nxt q)
    (hlo : -2 ^ 20 ≤ lo) (hk : k ≤ 65536) {m : Mbuf} (hm : m ∈ q) (h : m.Holds σ pos nxt) :
    m.Holds σ (pos + k) (nxt + BitVec.ofNat 32 k) := by
  obtain ⟨o, ho, hdata⟩ := h
  have hadv := hq.ahead_advance hlo hk hm
  exact ⟨o, by push_cast; omega, hdata⟩

/-- **The drain loop appends the next bytes of the stream** and leaves buffers that
hold theirs.  `W` is the window at the start of the call. -/
theorem Drained.stream {W : ℕ} (hW : W ≤ tcpWin) {rcv rcv' : RcvVars} {q app left : List Mbuf}
    (h : Drained rcv q rcv' app left) : ∀ {pos : ℕ}, rcv.wnd.toNat ≤ W →
      Ooo (rcv.wnd.toNat - W) rcv.nxt q → (∀ m ∈ q, m.Holds σ pos rcv.nxt) →
      rcv'.nxt = rcv.nxt + BitVec.ofNat 32 (rxBytes app) ∧ rcv'.irs = rcv.irs ∧
        rxData app = slice σ pos (rxBytes app) ∧
        ∀ m ∈ left, m.Holds σ (pos + rxBytes app) rcv'.nxt := by
  have hW' : W ≤ 64240 := hW
  induction h with
  | nil => intro pos _ _ _; simp
  | stale _ _ ih =>
      intro pos hw hq hh
      exact ih hw hq.tail fun m hm => hh m (List.mem_cons_of_mem _ hm)
  | wait _ => intro pos _ _ hh; simpa using hh
  | @take rcv pos' rest m' rcv' app left hlt _ hc _ ih =>
      intro pos hw hq hh
      have hmem : pos' ∈ pos' :: rest := List.mem_cons_self
      obtain ⟨hdata, hsl⟩ := hc.data_eq (hq.wf _ hmem) (hq.noFin _ hmem) hlt (hh _ hmem)
      have hk := hc.segLen_le_wnd
      have hwnd := RcvVars.toNat_advance_wnd hk
      have hadv : Ooo ((rcv.advance m'.segLen).wnd.toNat - W) (rcv.advance m'.segLen).nxt rest := by
        have hlo : ((rcv.advance m'.segLen).wnd.toNat : ℤ) - W =
            rcv.wnd.toNat - W - m'.segLen := by omega
        rw [hlo]
        exact hq.tail.advance (by omega) (by omega)
      obtain ⟨hnxt, hirs, happ, hleft⟩ := @ih (pos + m'.len) (by omega) hadv fun m hm => by
        rw [← hsl]
        exact Mbuf.Holds.advance hq.tail (by omega) (by omega) hm
          (hh m (List.mem_cons_of_mem _ hm))
      refine ⟨?_, hirs, ?_, ?_⟩
      · rw [hnxt, rxBytes_cons, BitVec.ofNat_add, ← BitVec.add_assoc, ← hsl]
        rfl
      · rw [rxData_cons, rxBytes_cons, hdata, happ, slice_add]
      · intro m hm
        rw [rxBytes_cons, ← Nat.add_assoc]
        exact hleft m hm

theorem TextOf.err_eq {x x' : RxSide} {m : Mbuf} {used wake : Bool} (h : TextOf x m x' used wake) :
    x'.err = x.err := by
  cases h <;> rfl

/-- **Segment text appends the next bytes of the stream**, and the out-of-order
queue goes on holding bytes of the stream. -/
theorem TextOf.stream {x x' : RxSide} {m : Mbuf} {used wake : Bool} {pos : ℕ}
    (h : TextOf x m x' used wake) (hw : x.rcv.wnd.toNat ≤ tcpWin) (hm : m.WellFormed)
    (hf : m.flags.fin = false) (hmh : m.Holds σ pos x.rcv.nxt)
    (ho : Ooo 0 x.rcv.nxt x.rx.rxqOoo) (hh : ∀ a ∈ x.rx.rxqOoo, a.Holds σ pos x.rcv.nxt) :
    ∃ app, x'.rx.rxq = x.rx.rxq ++ app ∧ x'.rcv.irs = x.rcv.irs ∧
      x'.rcv.nxt = x.rcv.nxt + BitVec.ofNat 32 (rxBytes app) ∧
      rxData app = slice σ pos (rxBytes app) ∧
      ∀ a ∈ x'.rx.rxqOoo, a.Holds σ (pos + rxBytes app) x'.rcv.nxt := by
  cases h with
  | @inOrder m' rcv' app left hlo hc hd =>
      obtain ⟨hdata, hsl⟩ := hc.data_eq hm hf hlo hmh
      have hk := hc.segLen_le_wnd
      have hw' : x.rcv.wnd.toNat ≤ 64240 := hw
      have hwnd := RcvVars.toNat_advance_wnd hk
      have hadv : Ooo ((x.rcv.advance m'.segLen).wnd.toNat - x.rcv.wnd.toNat)
          (x.rcv.advance m'.segLen).nxt x.rx.rxqOoo := by
        have hlo : ((x.rcv.advance m'.segLen).wnd.toNat : ℤ) - x.rcv.wnd.toNat =
            0 - m'.segLen := by omega
        rw [hlo]
        exact ho.advance (by omega) (by omega)
      have hadvh : ∀ a ∈ x.rx.rxqOoo, a.Holds σ (pos + m'.len) (x.rcv.advance m'.segLen).nxt := by
        intro a ha
        rw [← hsl]
        exact Mbuf.Holds.advance ho (by omega) (by omega) ha (hh a ha)
      obtain ⟨hnxt, hirs, happ, hleft⟩ := hd.stream hw (by omega) hadv hadvh
      refine ⟨m' :: app, rfl, hirs, ?_, ?_, ?_⟩
      · rw [rxBytes_cons, BitVec.ofNat_add, ← BitVec.add_assoc, ← hsl]
        exact hnxt
      · rw [rxData_cons, rxBytes_cons, hdata, happ, slice_add]
      · intro a ha
        rw [rxBytes_cons, ← Nat.add_assoc]
        exact hleft a ha
  | @queued ooo hlo hins =>
      refine ⟨[], by simp, rfl, by simp, by simp, ?_⟩
      intro a ha
      rw [rxBytes_nil, Nat.add_zero]
      rcases mem_of_rxInsert hins ha with rfl | ha
      exacts [hmh, hh a ha]
  | unused _ => exact ⟨[], by simp, rfl, by simp, by simp, hh⟩

/-! ## The invariant -/

/-- The receive side holds the stream: what was received is the front of it and
`rcv_nxt` stands behind that, and the out-of-order queue holds bytes of it.  A
connection that failed has dropped its queues. -/
structure StreamInv (σ : ℕ → Byte) (t : Tracked) : Prop where
  rxInv : t.sys.RxInv
  early : t.sys.conn.state = .synSent → t.received = []
  state : t.sys.conn.err = 0 → t.sys.conn.state ≤ .finWait2
  received : t.sys.conn.err = 0 → t.received = slice σ 0 t.received.length
  nxt : t.sys.conn.err = 0 → t.sys.conn.state ≠ .synSent →
    t.sys.conn.rcv.nxt = t.sys.conn.rcv.irs + 1 + BitVec.ofNat 32 t.received.length
  holds : t.sys.conn.err = 0 → ∀ m ∈ t.sys.conn.rx.rxqOoo,
    m.Holds σ t.received.length t.sys.conn.rcv.nxt

namespace StreamInv

variable {t t' : Tracked}

/-- A step that moves bytes from `rxq` to a reader, or does nothing to the receive
side. -/
theorem of_keep (h : StreamInv σ t) (hrx : t'.sys.RxInv) (hrec : t'.received = t.received)
    (herr : t'.sys.conn.err = t.sys.conn.err) (hnxt : t'.sys.conn.rcv.nxt = t.sys.conn.rcv.nxt)
    (hirs : t'.sys.conn.rcv.irs = t.sys.conn.rcv.irs)
    (hooo : t'.sys.conn.rx.rxqOoo = t.sys.conn.rx.rxqOoo)
    (hst : t.sys.conn.state ≤ .finWait2 → t'.sys.conn.state ≤ .finWait2)
    (hsyn : t'.sys.conn.state = .synSent ↔ t.sys.conn.state = .synSent) : StreamInv σ t' where
  rxInv := hrx
  early he := by rw [hrec]; exact h.early (hsyn.mp he)
  state he := hst (h.state (herr ▸ he))
  received he := by rw [hrec]; exact h.received (herr ▸ he)
  nxt he hs := by
    rw [hrec, hnxt, hirs]
    exact h.nxt (herr ▸ he) fun hs' => hs (hsyn.mpr hs')
  holds he := by
    rw [hrec, hnxt, hooo]
    exact h.holds (herr ▸ he)

/-- A failed connection owes nothing. -/
theorem of_err (hrx : t'.sys.RxInv) (hst : t'.sys.conn.state = .closed)
    (herr : t'.sys.conn.err ≠ 0) : StreamInv σ t' where
  rxInv := hrx
  early he := absurd (hst.symm.trans he) (by simp)
  state he := absurd he herr
  received he := absurd he herr
  nxt he := absurd he herr
  holds he := absurd he herr

end StreamInv

/-! ## What a step takes -/

theorem SameReaders.takenIn_eq {s s' : Sys} (h : SameReaders s s') (e : Event) :
    takenIn s s' e = [] := by
  cases e with
  | run t io =>
      rw [takenIn]
      rcases h t with ht | ⟨h₁, h₂⟩
      · rw [ht]
        cases s.procs t with
        | readCopy len q part => cases part <;> rfl
        | _ => rfl
      · cases hp : s.procs t <;> simp_all [Proc.reads]
  | _ => rfl

/-- The pop loop takes the buffers it pops. -/
theorem takenIn_pop {s : Sys} {c' : Conn} {t : Tid} {io : Io} {len : ℕ} {p : Popped}
    (hp : s.procs t = .readWait len) (hspec : PopSpec len 0 s.conn.rx.rxq p) :
    takenIn s (s.move c' t (if p.readlen = 0 then .done 0 [] else .readCopy len p.q p.part))
      (.run t io) = rxData p.q := by
  simp only [takenIn, hp, Sys.procs_move_self]
  split_ifs with h
  · have hpart : p.part = false := by
      by_contra hne
      obtain ⟨h₁, m, rest, -, h₂, -⟩ := hspec.inside (by simpa using hne)
      omega
    have hlen : (rxData p.q).length = 0 := by
      have := hspec.whole hpart
      rw [length_rxData]
      omega
    exact (List.eq_nil_of_length_eq_zero hlen).symm
  · rfl

/-- The copy out of a buffer that is read in part takes what it strips. -/
theorem takenIn_copyPart {s : Sys} (io : Io) (hi : s.RxInv) {c' : Conn} {t : Tid} {len : ℕ}
    {q : List Mbuf} {bytes : List Byte} (hp : s.procs t = .readCopy len q true)
    (hc : tcpReadCopy s.conn len q true = .ok (c', bytes)) :
    takenIn s (s.move c' t (.readFinish bytes)) (.run t io) ++ rxData c'.rx.rxq =
        rxData s.conn.rx.rxq ∧ c'.state = s.conn.state ∧ c'.err = s.conn.err ∧
      c'.rcv = s.conn.rcv ∧ c'.rx.rxqOoo = s.conn.rx.rxqOoo := by
  obtain ⟨m, m', rest, hq, -, hdata, -, he⟩ := hi.readCopy_eq hp
  rw [he] at hc
  cases hc
  refine ⟨?_, rfl, rfl, rfl, rfl⟩
  simp only [takenIn, hp, Sys.procs_move_self, hq, rxData_cons, hdata]
  rw [← length_flatten_data, List.drop_left, ← List.append_assoc, List.take_append_drop]

/-! ## Steps and runs -/

/-- The state changes outside `tcp_rx_conn`, seen from a connection that has not
received a FIN. -/
theorem AppMove.stream {st st' : TcpState} (h : AppMove st st') :
    (st ≤ .finWait2 → st' ≤ .finWait2) ∧ (st' = .synSent ↔ st = .synSent) := by
  cases h with
  | shut h => cases h <;> simp <;> decide
  | expire => simp; decide

theorem AckMove.stream {st st' : TcpState} (h : AckMove st st') :
    (st ≤ .finWait2 → st' ≤ .finWait2) ∧ (st' = .synSent ↔ st = .synSent) := by
  cases h <;> simp <;> decide

/-- A segment whose offset is near `rcv_nxt` lies where its sequence number says. -/
theorem Segment.CutAt.holds {irs nxt : Seq} {pos : ℕ} {seg : Segment}
    (h : seg.CutAt σ irs pos) (hnxt : nxt = irs + 1 + BitVec.ofNat 32 pos) :
    seg.mbuf.Holds σ pos nxt := by
  obtain ⟨o, hseq, hdata, hlo, hhi⟩ := h
  refine ⟨o, ?_, ?_⟩
  · change (o : ℤ) = pos + ahead seg.seq nxt
    rw [hseq, hnxt, ahead_add_add _ (by omega) (by omega)]
    omega
  · rw [Segment.mbuf, Mbuf.data_ofPayload]
    exact hdata

/-- **A segment keeps the invariant.** -/
theorem StreamInv.segment {s s' : Sys} {taken : List Byte} {seg : Segment}
    (h : StreamInv σ ⟨s, taken⟩) (hwf : seg.WellFormed) (heff : RxEffect seg s.conn s'.conn)
    (hrx : s'.RxInv)
    (hcut : s.conn.state = .synSent ∨ (isAcceptable s.conn.rcv seg.len seg.seq →
      seg.flags.fin = false ∧
        seg.CutAt σ s.conn.rcv.irs (Tracked.received ⟨s, taken⟩).length)) :
    StreamInv σ ⟨s', taken⟩ := by
  cases heff with
  | quiet hside hmove =>
      obtain ⟨hst, hsyn⟩ := hmove.stream
      have hrcv : s'.conn.rcv = s.conn.rcv := congrArg RxSide.rcv hside
      have hrx' : s'.conn.rx = s.conn.rx := congrArg RxSide.rx hside
      exact h.of_keep hrx (by simp only [Tracked.received, hrx']) (congrArg RxSide.err hside)
        (by rw [hrcv]) (by rw [hrcv]) (by rw [hrx']) hst hsyn
  | syn hst hle hside =>
      have hrx' : s'.conn.rx = s.conn.rx := congrArg RxSide.rx hside
      have hrcv : s'.conn.rcv = { s.conn.rcv with nxt := seg.seq + 1, irs := seg.seq } :=
        congrArg RxSide.rcv hside
      have hnil : Tracked.received ⟨s', taken⟩ = [] := by
        have := h.early hst
        simpa only [Tracked.received, hrx'] using this
      have hooo : s'.conn.rx.rxqOoo = [] := by
        rw [hrx']
        exact h.rxInv.early (by change s.conn.state < _; rw [hst]; decide)
      refine ⟨hrx, fun _ => hnil, fun _ => Nat.le_trans hle (by decide), fun _ => ?_, fun _ _ => ?_,
        fun _ m hm => ?_⟩
      · rw [hnil]
        rfl
      · rw [hnil]
        simp [hrcv]
      · rw [hooo] at hm
        cases hm
  | reset hst hside =>
      have herr : s'.conn.err = eConnReset := congrArg RxSide.err hside
      exact StreamInv.of_err hrx hst (by rw [herr]; decide)
  | @text st x used wake hmove htake hpos hacc htext hooo hside hst =>
      have hnsyn : s.conn.state ≠ .synSent := by
        intro he
        rw [he] at hmove
        cases hmove
        exact absurd htake (by decide)
      obtain ⟨hfin, hat⟩ := hcut.resolve_left hnsyn hacc
      rw [hfin, if_neg (by simp)] at hst
      have hx : s'.conn.rcv = x.rcv ∧ s'.conn.rx.rxq = x.rx.rxq ∧
          s'.conn.rx.rxqOoo = x.rx.rxqOoo ∧ s'.conn.err = x.err :=
        ⟨congrArg RxSide.rcv hside, congrArg (fun y : RxSide => y.rx.rxq) hside,
          congrArg (fun y : RxSide => y.rx.rxqOoo) hside, congrArg RxSide.err hside⟩
      obtain ⟨hrcv, hrxq, hooo', herr⟩ := hx
      rw [htext.err_eq] at herr
      have hnsyn' : s'.conn.state ≠ .synSent := fun he => hnsyn (hmove.stream.2.mp (hst ▸ he))
      by_cases he : s.conn.err = 0
      · have hm := hwf.mbuf hpos
        obtain ⟨app, happ, hirs, hnxt, hdata, hleft⟩ := htext.stream h.rxInv.rxOk.wnd_le hm hfin
          (hat.holds (h.nxt he hnsyn)) (h.rxInv.rxOk.ooo_of_ackMove hmove htake) (h.holds he)
        have hrec : Tracked.received ⟨s', taken⟩ = Tracked.received ⟨s, taken⟩ ++ rxData app := by
          simp [Tracked.received, hrxq, happ]
        have hlen : (Tracked.received ⟨s', taken⟩).length =
            (Tracked.received ⟨s, taken⟩).length + rxBytes app := by
          simp [hrec]
        refine ⟨hrx, fun hs => absurd hs hnsyn', fun _ => ?_, fun _ => ?_, fun _ _ => ?_,
          fun _ m hm => ?_⟩
        · exact hst ▸ hmove.stream.1 (h.state he)
        · rw [hlen, slice_add, hrec, ← h.received he, hdata, Nat.zero_add]
        · dsimp only
          rw [hlen, hrcv, hnxt, hirs, BitVec.ofNat_add, ← BitVec.add_assoc]
          exact congrArg (· + _) (h.nxt he hnsyn)
        · rw [hlen]
          dsimp only
          rw [hrcv]
          exact hleft m (hooo' ▸ hm)
      · have he' : s'.conn.err ≠ 0 := by rw [herr]; exact he
        exact ⟨hrx, fun hs => absurd hs hnsyn', fun h => absurd h he', fun h => absurd h he',
          fun h => absurd h he', fun h => absurd h he'⟩

/-- **Every step keeps the invariant**, as long as the segments are cut from the
stream. -/
theorem trackStep_streamInv {t t' : Tracked} {e : Event} (h : StreamInv σ t) (hg : CutFrom σ t e)
    (hstep : trackStep t e = .ok t') : StreamInv σ t' := by
  obtain ⟨s, taken⟩ := t
  obtain ⟨s', hs, h'⟩ := bind_eq_ok.mp hstep
  cases h'
  change sysStep s e = .ok s' at hs
  have hi : s.RxInv := h.rxInv
  have hrx : s'.RxInv := sysStep_rxInv hi hs
  -- a step that takes nothing and leaves the receive side alone
  have hquiet : takenIn s s' e = [] → s'.conn.rcv = s.conn.rcv → s'.conn.rx.rxq = s.conn.rx.rxq →
      s'.conn.rx.rxqOoo = s.conn.rx.rxqOoo → s'.conn.err = s.conn.err →
      AppMove s.conn.state s'.conn.state → StreamInv σ ⟨s', taken ++ takenIn s s' e⟩ := by
    intro ht hrcv hrxq hooo herr hmove
    obtain ⟨hst, hsyn⟩ := hmove.stream
    exact h.of_keep hrx (by simp [Tracked.received, ht, hrxq]) herr (by rw [hrcv]) (by rw [hrcv])
      hooo hst hsyn
  have hsame : AppMove s.conn.state s.conn.state := .shut .same
  cases sysStep_rxMove hi.rxOk hs with
  | inert hside hmove hr =>
      have hrx' : s'.conn.rx = s.conn.rx := congrArg RxSide.rx hside
      exact hquiet (hr.takenIn_eq e) (congrArg RxSide.rcv hside) (by rw [hrx']) (by rw [hrx'])
        (congrArg RxSide.err hside) hmove
  | shut _ hside hmove hr =>
      obtain ⟨h₁, h₂, h₃, h₄, -⟩ := RxSide.shut_keeps hside
      exact hquiet (hr.takenIn_eq _) h₁ h₂ h₃ h₄ hmove
  | @fail _ _ err hside hst hr h0 =>
      have herr : s'.conn.err = err := congrArg RxSide.err hside
      refine StreamInv.of_err hrx hst ?_
      change s'.conn.err ≠ 0
      rw [herr]
      intro he
      obtain ⟨io, rfl⟩ := h0 he
      exact hg rfl
  | @segment f sndNxt io seg _ hparse hwf heff hprocs =>
      rw [CutFrom, hparse] at hg
      rw [show takenIn s s' (.rx f sndNxt io) = [] from rfl, List.append_nil]
      exact h.segment hwf heff hrx hg
  | start _ => exact hquiet rfl rfl rfl rfl rfl hsame
  | sleep _ hp _ _ => exact hquiet (by simp [takenIn, hp]) rfl rfl rfl rfl hsame
  | closed _ hp _ => exact hquiet (by simp [takenIn, hp]) rfl rfl rfl rfl hsame
  | @pop t io len p c' _ hp _ _ _ hpop hside hst =>
      have hspec : PopSpec len 0 s.conn.rx.rxq p := hpop ▸ readPop_spec len s.conn.rx.rxq 0
      have hrxq : c'.rx.rxq = p.rest := congrArg (fun x : RxSide => x.rx.rxq) hside
      have hnxt : c'.rcv.nxt = s.conn.rcv.nxt := congrArg (fun x : RxSide => x.rcv.nxt) hside
      have hirs : c'.rcv.irs = s.conn.rcv.irs := congrArg (fun x : RxSide => x.rcv.irs) hside
      have hooo : c'.rx.rxqOoo = s.conn.rx.rxqOoo := congrArg (fun x : RxSide => x.rx.rxqOoo) hside
      refine h.of_keep hrx ?_ (congrArg RxSide.err hside) hnxt hirs hooo ?_ ?_
      · simp only [Tracked.received, takenIn_pop hp hspec, Sys.conn_move, hrxq]
        rw [hspec.split, rxData_append, List.append_assoc]
      · exact fun hle => hst ▸ hle
      · rw [Sys.conn_move, hst]
  | copy _ hp _ => exact hquiet (by simp [takenIn, hp]) rfl rfl rfl rfl hsame
  | @copyPart t io len q bytes c' _ hp hc =>
      obtain ⟨hdata, hst, herr, hrcv, hooo⟩ := takenIn_copyPart io hi hp hc
      refine h.of_keep hrx ?_ herr (by rw [Sys.conn_move, hrcv]) (by rw [Sys.conn_move, hrcv]) hooo
        (fun hle => hst ▸ hle) (by rw [Sys.conn_move, hst])
      simp only [Tracked.received, Sys.conn_move, List.append_assoc, hdata]
  | finish _ hp => exact hquiet (by simp [takenIn, hp]) rfl rfl rfl rfl hsame

theorem Sys.Start.streamInv {s : Sys} (h : s.Start) (σ : ℕ → Byte) : StreamInv σ ⟨s, []⟩ := by
  have hnil : Tracked.received ⟨s, []⟩ = [] := by
    simp [Tracked.received, h.rxq_nil]
  have hrx := h.rxInv
  obtain ⟨c, rfl, hrx', -, -, hst, hnxt⟩ := h.fresh
  have hooo : c.rx.rxqOoo = [] := by
    rw [hrx']
    rfl
  refine ⟨hrx, fun _ => hnil, fun _ => Nat.le_trans (Nat.le_of_lt hst) (by decide), fun _ => ?_,
    fun _ hs => ?_, fun _ m hm => ?_⟩
  · rw [hnil]
    rfl
  · rw [hnil]
    change c.rcv.nxt = c.rcv.irs + 1 + BitVec.ofNat 32 0
    simpa using hnxt.resolve_left hs
  · change m ∈ c.rx.rxqOoo at hm
    rw [hooo] at hm
    cases hm

theorem streamInv_of_reach {s₀ : Sys} {es : List Event} {t : Tracked} (h₀ : s₀.Start)
    (hg : Along trackStep (CutFrom σ) ⟨s₀, []⟩ es) (h : exec trackStep ⟨s₀, []⟩ es = .ok t) :
    StreamInv σ t :=
  exec_invariant (fun _ _ _ hs hg hstep => trackStep_streamInv hs hg hstep) (h₀.streamInv σ) hg h

/-- The out-of-order queue of a connection that holds the stream is in order. -/
theorem StreamInv.ooo {t : Tracked} (h : StreamInv σ t) (herr : t.sys.conn.err = 0) :
    Ooo 0 t.sys.conn.rcv.nxt t.sys.conn.rx.rxqOoo := by
  have hle := h.state herr
  by_cases hst : t.sys.conn.state < .established
  · rw [h.rxInv.early hst]
    exact Ooo.nil _ _
  · refine h.rxInv.ooo ?_
    revert hst hle
    cases t.sys.conn.state <;> decide

/-- **The receive side reassembles the stream.**  In every state of a connection
that has seen the peer's SYN and has not failed, reached under any interleaving
of calls, timers and segments that are cut from the stream while their offset is
less than 2^31 from the one of `rcv_nxt`: what reads have taken and what waits on
`rxq` is the front of the stream, `rcv_nxt` stands right behind it, the
out-of-order queue is sorted and each entry holds the bytes of the stream over its
sequence range, and no assertion fails on the next frame. -/
theorem stream_reassembled {s₀ : Sys} {es : List Event} {t : Tracked} (h₀ : s₀.Start)
    (hg : Along trackStep (CutFrom σ) ⟨s₀, []⟩ es) (h : exec trackStep ⟨s₀, []⟩ es = .ok t)
    (herr : t.sys.conn.err = 0) (hst : t.sys.conn.state ≠ .synSent) :
    t.received = slice σ 0 t.received.length ∧
    t.sys.conn.rcv.nxt = t.sys.conn.rcv.irs + 1 + BitVec.ofNat 32 t.received.length ∧
    (t.sys.conn.rx.rxqOoo.Pairwise fun a b => wrapsLte a.segSeq b.segSeq) ∧
    (∀ m ∈ t.sys.conn.rx.rxqOoo, ∃ o : ℕ, t.received.length < o ∧
      m.segSeq = t.sys.conn.rcv.irs + 1 + BitVec.ofNat 32 o ∧
      m.segEnd = m.segSeq + BitVec.ofNat 32 m.len ∧ m.data = slice σ o m.len) ∧
    ∀ f sndNxt io, ∃ s', runRx t.sys f sndNxt io = .ok s' := by
  have hi := streamInv_of_reach h₀ hg h
  have ho := hi.ooo herr
  have hnxt := hi.nxt herr hst
  refine ⟨hi.received herr, hnxt, ?_, fun m hm => ?_, fun f sndNxt io => ?_⟩
  · refine ho.sorted.imp_of_mem fun {a b} ha hb hab => ?_
    have ha₁ := ho.lo_lt a ha
    have ha₂ := ho.lt_hi a ha
    have hb₁ := ho.lo_lt b hb
    have hb₂ := ho.lt_hi b hb
    rw [wrapsLte_iff, ahead_eq_sub (c := t.sys.conn.rcv.nxt) (by omega) (by omega)]
    omega
  · obtain ⟨o, hpos, hdata⟩ := hi.holds herr m hm
    have hlo := ho.lo_lt m hm
    have hlen := (ho.wf m hm).segLen_eq
    rw [ho.noFin m hm, Bool.toNat_false, Nat.add_zero] at hlen
    refine ⟨o, by omega, ?_, ?_, hdata⟩
    · obtain ⟨k, hk⟩ : ∃ k : ℕ, ahead m.segSeq t.sys.conn.rcv.nxt = k :=
        ⟨_, (Int.toNat_of_nonneg (by omega)).symm⟩
      have ho' : o = t.received.length + k := by omega
      rw [← add_ofNat_eq_of_ahead hk, hnxt, ho', BitVec.ofNat_add, BitVec.add_assoc]
    · rw [← hlen]
      exact m.segEnd_eq
  · obtain ⟨s', hs', -⟩ := runRx_spec hi.rxInv.rxOk f sndNxt io
    exact ⟨s', hs'⟩

/-- Four bytes arrive in two segments, the second of them first, and a read takes
one byte in between. -/
theorem stream_reassembled_swapped : ∃ t : Tracked,
    exec trackStep ⟨accepted, []⟩ [.rx (peerFrame 3 { ack := true } [2, 3]) 1 (Io.good 0),
      .rx (peerFrame 1 { ack := true } [0, 1]) 1 (Io.good 0), .call 0 (.read 1),
      .run 0 (Io.good 0), .run 0 (Io.good 0), .run 0 (Io.good 0)] = .ok t ∧
    t.taken.length = 1 ∧ t.received = slice (BitVec.ofNat 8) 0 t.received.length :=
  have h := exec_final (by decide)
  ⟨_, h, by decide, (stream_reassembled accepted_start (by decide) h
    (by decide) (by decide)).1⟩

/-- A segment that is cut from the stream 2^32 bytes on has the sequence number of
the first byte.  It is accepted in its place. -/
theorem reassembly_aliases : accepted.Start ∧ ∃ (σ : ℕ → Byte) (s t : Tracked) (seg : Segment),
    exec trackStep ⟨accepted, []⟩ [.rx (peerFrame 1 { ack := true } []) 1 (Io.good 0)] = .ok s ∧
    tcpRxParse (peerFrame 1 { ack := true } [2]) = .ok (some seg) ∧ seg.flags.fin = false ∧
    seg.seq = s.sys.conn.rcv.irs + 1 + BitVec.ofNat 32 (2 ^ 32) ∧
    seg.payload = slice σ (2 ^ 32) 1 ∧ isAcceptable s.sys.conn.rcv seg.len seg.seq ∧
    trackStep s (.rx (peerFrame 1 { ack := true } [2]) 1 (Io.good 0)) = .ok t ∧
    t.sys.conn.err = 0 ∧ t.sys.conn.state ≠ .synSent ∧ t.received.length = 1 ∧
    t.received ≠ slice σ 0 1 :=
  ⟨accepted_start, fun i => if i = 2 ^ 32 then 2 else 1, _, _, _, exec_final (by decide),
    rfl, rfl, by decide, by decide, by decide,
    step_final (by decide), by decide, by decide, by decide,
    by decide⟩

end Skyloft
