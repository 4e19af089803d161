import Skyloft.Net.FinOrder
import Skyloft.Net.Stream

/-!
# What a reader gets

A `Traced` state remembers the buffers that arrived on `rxq`, the bytes that the
reads of one task returned before the first of them returned 0, and whether the
application shut the receive side down.  The received stream is the text of the
buffers that arrived: the bytes their sequence ranges cover.

`tcp_read_wait` acts on a FIN when its buffer comes into sight, returns what it
counted even if that is nothing, and a FIN segment that the window cuts loses its
last byte.  `ReadOk` says when none of this does harm; under it `reads_exact` shows
that the reads return the received stream.

## Main definitions

* `Traced`, `traceStep` — the system with what arrived and what was returned.
* `PopOk`, `ReadOk` — the condition on a read and on a step of a run.
* `Exact`, `OneReader` — the invariant.
-/

namespace Skyloft

open Run Serial

/-- The received stream: the bytes that the sequence ranges of buffers cover. -/
def rxText (q : List Mbuf) : List Byte := (q.map Mbuf.text).flatten

@[simp] theorem rxText_nil : rxText [] = [] := rfl

@[simp] theorem rxText_append (q r : List Mbuf) : rxText (q ++ r) = rxText q ++ rxText r := by
  simp [rxText]

/-! ## Traces -/

/-- The buffers that a step puts on `rxq`. -/
def arrivedIn (s s' : Sys) : Event → List Mbuf
  | .rx _ _ _ => appended s.conn.rxSide s'.conn.rxSide
  | _ => []

/-- What a read returns in a step, if one does. -/
def returnedIn (s s' : Sys) : Event → Option (ℤ × List Byte)
  | .run t _ =>
      match (s.procs t).reads, s'.procs t with
      | true, .done ret bytes => some (ret, bytes)
      | _, _ => none
  | _ => none

/-- In this step `tcp_shutdown` or `tcp_close` closes the receive side. -/
def shutIn (s s' : Sys) : Event → Bool
  | .run t _ => (s.procs t).shuts && !s.conn.rx.closed && s'.conn.rx.closed
  | _ => false

/-- A system with what arrived on `rxq`, the bytes returned by reads before the
first that returned 0, whether there was one, and whether the application shut the
receive side down. -/
structure Traced where
  sys : Sys
  arrived : List Mbuf
  out : List Byte
  eof : Bool
  shut : Bool

def Traced.start (s : Sys) : Traced := ⟨s, [], [], false, false⟩

def traceStep (t : Traced) (e : Event) : Except Fault Traced := do
  let s' ← sysStep t.sys e
  let r := returnedIn t.sys s' e
  return {
    sys := s'
    arrived := t.arrived ++ arrivedIn t.sys s' e
    out := t.out ++ (if t.eof then [] else (r.map Prod.snd).getD [])
    eof := t.eof || r.any fun r => r.1 == 0
    shut := t.shut || shutIn t.sys s' e }

/-! ## The condition -/

/-- A read of `len` bytes that reaches the buffer with the FIN, behind `n` bytes,
takes every byte of the queue. -/
def FinTaken (len : ℕ) : ℕ → List Mbuf → Prop
  | _, [] => True
  | n, m :: rest =>
      (m.flags.fin → n < len → n + m.len + rxBytes rest ≤ len ∧ (m.len = 0 → rxBytes rest = 0)) ∧
        FinTaken len (n + m.len) rest

instance FinTaken.decidable (len : ℕ) : ∀ n q, Decidable (FinTaken len n q)
  | _, [] => .isTrue True.intro
  | n, m :: rest =>
      have := FinTaken.decidable len (n + m.len) rest
      inferInstanceAs (Decidable ((_ → _) ∧ FinTaken len (n + m.len) rest))

/-- There is a byte or a FIN to read, and a read that reaches the FIN takes
everything. -/
def PopOk (len : ℕ) (q : List Mbuf) : Prop :=
  (∃ m ∈ q, m.len ≠ 0 ∨ m.flags.fin) ∧ FinTaken len 0 q

instance (len : ℕ) (q : List Mbuf) : Decidable (PopOk len q) := inferInstanceAs (Decidable (_ ∧ _))

/-- The condition on a step: only task `r` reads, and it asks for something;
`PopOk` when it pops; and a FIN segment that is next in order is not cut by the
window. -/
def ReadOk (r : Tid) (s : Sys) : Event → Prop
  | .call t (.read len) => t = r ∧ 0 < len
  | .run t _ =>
      match s.procs t with
      | .readWait len => s.asleep t = false → s.conn.rx.closed = false →
          s.conn.rx.exclusive = false → s.conn.rx.rxq ≠ [] → PopOk len s.conn.rx.rxq
      | _ => True
  | .rx f _ _ =>
      match tcpRxParse f with
      | .ok (some seg) => seg.flags.fin → s.conn.state.postFin = false →
          isAcceptable s.conn.rcv seg.len seg.seq → wrapsLte seg.seq s.conn.rcv.nxt →
          wrapsLte (seg.seq + seg.len) (s.conn.rcv.nxt + s.conn.rcv.wnd)
      | _ => True
  | .netErr err _ => err ≠ 0
  | _ => True

instance (r : Tid) (s : Sys) : (e : Event) → Decidable (ReadOk r s e)
  | .call _ (.read _) => inferInstanceAs (Decidable (_ ∧ _))
  | .call _ .dial | .call _ (.write _) | .call _ (.writev _) | .call _ (.shutdown _ _)
  | .call _ .close | .call _ .abort => .isTrue trivial
  | .run t _ => by
      dsimp only [ReadOk]
      split <;> infer_instance
  | .rx f _ _ => by
      dsimp only [ReadOk]
      rcases tcpRxParse f with _ | _ | _ <;> infer_instance
  | .netErr _ _ => inferInstanceAs (Decidable (_ ≠ _))
  | .ackOut _ | .resend _ | .timeouts _ _ _ | .txDone _ => .isTrue trivial

/-! ## The pop loop -/

/-- A pop that meets no FIN counts everything a long enough read can take. -/
theorem readPop_of_le {len : ℕ} : ∀ {q : List Mbuf} {n : ℕ}, n + rxBytes q ≤ len →
    (readPop len n q).fin = false →
    (readPop len n q).readlen = n + rxBytes q ∧ (readPop len n q).part = false := by
  intro q
  induction q with
  | nil => intro n _ _; exact ⟨rfl, rfl⟩
  | cons m rest ih =>
      intro n hle
      rw [rxBytes_cons] at hle ⊢
      rw [readPop]
      split_ifs with h₁ h₂ h₃ <;> intro hfin
      · exact absurd hfin (by simp)
      · omega
      · obtain ⟨h₄, h₅⟩ := ih (n := n + m.len) (by omega) (Bool.or_eq_false_iff.mp hfin).2
        exact ⟨by dsimp only; omega, h₅⟩
      · exact ⟨by dsimp only; omega, rfl⟩

/-- A pop that reaches the FIN takes every byte. -/
theorem FinTaken.readlen_eq {len : ℕ} : ∀ {q : List Mbuf} {n : ℕ}, FinTaken len n q →
    (readPop len n q).fin → (readPop len n q).readlen = n + rxBytes q ∧
      (readPop len n q).part = false := by
  intro q
  induction q with
  | nil => intro n _ hfin; exact absurd hfin (by simp [readPop])
  | cons m rest ih =>
      rintro n ⟨hm, hrest⟩
      rw [rxBytes_cons, readPop]
      split_ifs with h₁ h₂ h₃ <;> intro hfin
      · have := (hm h₂.1 h₁).2 h₂.2
        exact ⟨by dsimp only; omega, rfl⟩
      · have := (hm hfin h₁).1
        omega
      · cases hp : (readPop len (n + m.len) rest).fin with
        | true =>
            obtain ⟨h₄, h₅⟩ := ih hrest hp
            exact ⟨by dsimp only; omega, h₅⟩
        | false =>
            simp only [hp, Bool.or_false] at hfin
            have hle := (hm hfin h₁).1
            obtain ⟨h₄, h₅⟩ := readPop_of_le (by omega) hp
            exact ⟨by dsimp only; omega, h₅⟩
      · cases hfin

/-- A FIN that a pop reaches is on the queue. -/
theorem mem_of_readPop_fin {len : ℕ} : ∀ {q : List Mbuf} {n : ℕ}, (readPop len n q).fin →
    ∃ m ∈ q, m.flags.fin := by
  intro q
  induction q with
  | nil => intro n hfin; exact absurd hfin (by simp [readPop])
  | cons m rest ih =>
      intro n hfin
      by_cases hm : m.flags.fin
      · exact ⟨m, List.mem_cons_self, hm⟩
      · rw [readPop] at hfin
        split_ifs at hfin with h₁ h₂ h₃
        · exact absurd h₂.1 hm
        · exact absurd hfin hm
        · simp only [Bool.not_eq_true] at hm
          simp only [hm, Bool.false_or] at hfin
          obtain ⟨x, hx, hf⟩ := ih hfin
          exact ⟨x, List.mem_cons_of_mem _ hx, hf⟩

/-- A pop that counts nothing reached a FIN, if there is a byte or a FIN. -/
theorem readPop_fin_of_zero {len : ℕ} (hlen : 0 < len) : ∀ {q : List Mbuf},
    (∃ m ∈ q, m.len ≠ 0 ∨ m.flags.fin) → (readPop len 0 q).readlen = 0 →
    (readPop len 0 q).fin := by
  intro q
  induction q with
  | nil => rintro ⟨m, hm, -⟩ _; cases hm
  | cons m rest ih =>
      rintro ⟨x, hx, hx'⟩
      rw [readPop, if_pos hlen]
      split_ifs with h₂ h₃ <;> intro h0
      · rfl
      · exact absurd h0 (by dsimp only; omega)
      · dsimp only at h0 ⊢
        by_cases hf : m.flags.fin
        · rw [hf, Bool.true_or]
        have hspec := readPop_spec len rest (0 + m.len)
        have hge : m.len ≤ (readPop len (0 + m.len) rest).readlen := by
          cases hp : (readPop len (0 + m.len) rest).part with
          | false => have := hspec.whole hp; omega
          | true => obtain ⟨_, _, _, _, _, _⟩ := hspec.inside hp; omega
        have hz : m.len = 0 := by omega
        rw [hz] at h0 ⊢
        refine Bool.or_eq_true_iff.mpr (.inr (ih ⟨x, ?_, hx'⟩ h0))
        rcases List.mem_cons.mp hx with rfl | hx
        · exact absurd hx' (by simp [hz, hf])
        · exact hx

/-! ## What arrives -/

/-- What an append leaves of a buffer shows all its text, unless the window cuts
off a FIN. -/
theorem Clip.text_eq {rcv : RcvVars} {m m' : Mbuf} (h : Clip rcv m m') (hm : m.WellFormed)
    (hfit : m.flags.fin → ahead m.segSeq rcv.nxt + m.segLen ≤ rcv.wnd.toNat) :
    m'.text = m'.data := by
  have hlen := h.len
  cases hf : m.flags.fin with
  | false =>
      rw [hf, Bool.toNat_false, Nat.add_zero] at hlen
      rw [Mbuf.text, Mbuf.data, hlen]
  | true =>
      have hoff := h.off
      have hseg := h.segLen
      have hsegLen := hm.segLen_eq
      have hwhole := hm.whole
      have hin := hfit hf
      rw [hf, Bool.toNat_true] at hlen hsegLen
      have hle : (m'.buf.drop m'.off).length ≤ m'.len := by
        rw [h.buf, List.length_drop]
        omega
      rw [Mbuf.text, Mbuf.data, List.take_of_length_le hle, List.take_of_length_le (by omega)]

theorem Drained.text_eq {rcv rcv' : RcvVars} {q app left : List Mbuf}
    (h : Drained rcv q rcv' app left) (hq : ∀ m ∈ q, m.flags.fin = false) :
    ∀ a ∈ app, a.text = a.data ∧ a.flags.fin = false := by
  induction h with
  | nil => simp
  | stale _ _ ih => exact ih fun m hm => hq m (List.mem_cons_of_mem _ hm)
  | wait _ => simp
  | @take rcv pos rest m' rcv' app left _ _ hc _ ih =>
      intro a ha
      have hpos := hq pos List.mem_cons_self
      rcases List.mem_cons.mp ha with rfl | ha
      · have hlen := hc.len
        rw [hpos, Bool.toNat_false, Nat.add_zero] at hlen
        exact ⟨by rw [Mbuf.text, Mbuf.data, hlen], hc.flags ▸ hpos⟩
      · exact ih (fun m hm => hq m (List.mem_cons_of_mem _ hm)) a ha

/-- The buffers that segment text puts on `rxq` show their text, and carry a FIN
only if the segment does. -/
theorem TextOf.text_eq {x x' : RxSide} {m : Mbuf} {used wake : Bool}
    (h : TextOf x m x' used wake) (hm : m.WellFormed)
    (hq : ∀ a ∈ x.rx.rxqOoo, a.flags.fin = false)
    (hfit : m.flags.fin → ahead m.segSeq x.rcv.nxt ≤ 0 →
      ahead m.segSeq x.rcv.nxt + m.segLen ≤ x.rcv.wnd.toNat) :
    ∀ a ∈ appended x x', a.text = a.data ∧ (a.flags.fin → m.flags.fin) := by
  cases h with
  | @inOrder m' rcv' app left hlo hc hd =>
      have happ : appended x (x.drained rcv' (m' :: app) left) = m' :: app := by
        simp [appended, RxSide.drained]
      rw [happ]
      intro a ha
      rcases List.mem_cons.mp ha with rfl | ha
      · exact ⟨hc.text_eq hm fun hf => hfit hf hlo, fun hf => hc.flags ▸ hf⟩
      · obtain ⟨h₁, h₂⟩ := hd.text_eq hq a ha
        exact ⟨h₁, fun hf => absurd hf (by simp [h₂])⟩
  | queued _ _ => simp [appended]
  | unused _ => simp [appended]

theorem rxText_eq_rxData {q : List Mbuf} (h : ∀ a ∈ q, a.text = a.data) : rxText q = rxData q := by
  rw [rxText, rxData, List.map_congr_left h]

/-! ## The invariant -/

/-- The bytes that a reader has taken off `rxq` and not returned yet. -/
def Proc.held : Proc → List Byte
  | .readCopy _ q _ => rxData q
  | .readFinish bytes => bytes
  | _ => []

theorem Proc.held_of_reads {p : Proc} (h : p.reads = false) : p.held = [] := by
  cases p <;> first | rfl | cases h

/-- Only `r` reads, and a read that is under way returns something. -/
structure OneReader (r : Tid) (s : Sys) : Prop where
  only : ∀ u, (s.procs u).reads → u = r
  wait : ∀ len, s.procs r = .readWait len → 0 < len
  copy : ∀ len q, s.procs r = .readCopy len q false → rxBytes q ≠ 0
  finish : ∀ bytes, s.procs r = .readFinish bytes → bytes ≠ []

/-- A FIN has arrived. -/
def Traced.finArrived (t : Traced) : Prop := ∃ m ∈ t.arrived, m.flags.fin

/-- What the reads of `r` have returned, what `r` holds and what waits on `rxq` is
the received stream, as long as no read returned 0; and that happens only at the
FIN or after a shutdown. -/
structure Exact (r : Tid) (t : Traced) : Prop where
  postFin : t.finArrived → t.sys.conn.state.postFin
  rxqFin : (∃ m ∈ t.sys.conn.rx.rxq, m.flags.fin) → t.finArrived
  flow : t.eof = false →
    t.out ++ (t.sys.procs r).held ++ rxData t.sys.conn.rx.rxq = rxText t.arrived
  closed : t.sys.conn.rx.closed → t.shut ∨ t.finArrived ∧ rxData t.sys.conn.rx.rxq = []
  pre : t.out <+: rxText t.arrived
  eof : t.eof → t.shut ∨ t.finArrived ∧ t.out = rxText t.arrived

/-- The invariant of a run with one reader. -/
structure ReadInv (r : Tid) (t : Traced) : Prop where
  rxInv : t.sys.RxInv
  one : OneReader r t.sys
  exact : t.sys.conn.err = 0 → Exact r t

/-! ## One reader -/

namespace OneReader

variable {r : Tid} {s s' : Sys}

theorem of_same (h : OneReader r s) (hr : SameReaders s s') : OneReader r s' := by
  have hback : ∀ u, (s'.procs u).reads → s'.procs u = s.procs u := by
    intro u hu
    rcases hr u with he | ⟨-, h₂⟩
    · exact he
    · rw [h₂] at hu
      cases hu
  refine ⟨fun u hu => h.only u (hback u hu ▸ hu), fun len hp => ?_, fun len q hp => ?_,
    fun bytes hp => ?_⟩
  · exact h.wait len (hback r (by rw [hp]; rfl) ▸ hp)
  · exact h.copy len q (hback r (by rw [hp]; rfl) ▸ hp)
  · exact h.finish bytes (hback r (by rw [hp]; rfl) ▸ hp)

/-- The reader moves to a point that meets its part of the condition. -/
theorem move (h : OneReader r s) {c : Conn} {p : Proc} (hw : ∀ len, p = .readWait len → 0 < len)
    (hc : ∀ len q, p = .readCopy len q false → rxBytes q ≠ 0)
    (hf : ∀ bytes, p = .readFinish bytes → bytes ≠ []) : OneReader r (s.move c r p) := by
  have hself : (s.move c r p).procs r = p := s.procs_move_self c r p
  refine ⟨fun u hu => ?_, fun len hp => hw len (hself ▸ hp), fun len q hp => hc len q (hself ▸ hp),
    fun bytes hp => hf bytes (hself ▸ hp)⟩
  by_contra hne
  rw [s.procs_move_of_ne c p hne] at hu
  exact hne (h.only u hu)

/-- The reader's call returns. -/
theorem done (h : OneReader r s) {c : Conn} {ret : ℤ} {bytes : List Byte} :
    OneReader r (s.move c r (.done ret bytes)) :=
  h.move (fun _ hp => by cases hp) (fun _ _ hp => by cases hp) (fun _ hp => by cases hp)

end OneReader

/-! ## Steps that keep the flow -/

namespace Exact

variable {r : Tid} {t t' : Traced}

/-- A step that neither moves bytes nor returns. -/
theorem of_keep (h : Exact r t) (harr : t'.arrived = t.arrived) (hout : t'.out = t.out)
    (heof : t'.eof = t.eof) (hshut : t.shut → t'.shut)
    (hq : t'.sys.conn.rx.rxq = t.sys.conn.rx.rxq)
    (hheld : (t'.sys.procs r).held = (t.sys.procs r).held)
    (hcl : t'.sys.conn.rx.closed → t.sys.conn.rx.closed ∨ t'.shut)
    (hpost : t.sys.conn.state.postFin → t'.sys.conn.state.postFin) : Exact r t' := by
  have hfin : t'.finArrived ↔ t.finArrived := by rw [Traced.finArrived, harr]; rfl
  refine ⟨fun hf => hpost (h.postFin (hfin.mp hf)), fun hf => hfin.mpr (h.rxqFin (hq ▸ hf)),
    fun he => ?_, fun hc => ?_, ?_, fun he => ?_⟩
  · rw [hout, hheld, hq, harr]
    exact h.flow (heof ▸ he)
  · rcases hcl hc with hc | hs
    · rw [hfin, hq]
      exact (h.closed hc).imp_left hshut
    · exact .inl hs
  · rw [hout, harr]
    exact h.pre
  · rw [hfin, hout, harr]
    exact (h.eof (heof ▸ he)).imp_left hshut

/-- A read returns the bytes it holds. -/
theorem of_return (h : Exact r t) (bytes : List Byte) (hb : (t.sys.procs r).held = bytes)
    (hsys : t'.sys.conn.state = t.sys.conn.state) (hq : t'.sys.conn.rx.rxq = t.sys.conn.rx.rxq)
    (hcl : t'.sys.conn.rx.closed = t.sys.conn.rx.closed) (hheld : (t'.sys.procs r).held = [])
    (harr : t'.arrived = t.arrived) (heof : t'.eof = t.eof) (hshut : t'.shut = t.shut)
    (hout : t'.out = t.out ++ if t.eof then [] else bytes) : Exact r t' := by
  have hfin : t'.finArrived ↔ t.finArrived := by rw [Traced.finArrived, harr]; rfl
  have hflow : t.eof = false → t'.out ++ rxData t.sys.conn.rx.rxq = rxText t.arrived := by
    intro he
    rw [hout, he, if_neg (by simp), ← hb]
    exact h.flow he
  refine ⟨fun hf => hsys ▸ h.postFin (hfin.mp hf), fun hf => hfin.mpr (h.rxqFin (hq ▸ hf)),
    fun he => ?_, fun hc => ?_, ?_, fun he => ?_⟩
  · rw [hheld, List.append_nil, hq, harr]
    exact hflow (heof ▸ he)
  · rw [hfin, hq, hshut]
    exact h.closed (hcl ▸ hc)
  · rw [harr]
    cases he : t.eof with
    | false => exact ⟨_, hflow he⟩
    | true => rw [hout, he, if_pos rfl, List.append_nil]; exact h.pre
  · rw [heof] at he
    rw [hfin, harr, hshut, hout, he, if_pos rfl, List.append_nil]
    exact h.eof he

/-- A read finds the receive side closed and returns 0. -/
theorem of_closed (h : Exact r t) (hc : t.sys.conn.rx.closed)
    (hb : (t.sys.procs r).held = []) (hsys : t'.sys.conn = t.sys.conn)
    (harr : t'.arrived = t.arrived) (heof : t'.eof) (hshut : t'.shut = t.shut)
    (hout : t'.out = t.out) : Exact r t' := by
  have hfin : t'.finArrived ↔ t.finArrived := by rw [Traced.finArrived, harr]; rfl
  refine ⟨fun hf => hsys ▸ h.postFin (hfin.mp hf), fun hf => hfin.mpr (h.rxqFin (hsys ▸ hf)),
    fun he => absurd (heof.symm.trans he) (by simp), fun hc => ?_, ?_, fun _ => ?_⟩
  · rw [hfin, hsys, hshut]
    exact h.closed (hsys ▸ hc)
  · rw [hout, harr]
    exact h.pre
  · rw [hfin, harr, hshut, hout]
    cases he : t.eof with
    | true => exact h.eof he
    | false =>
        refine (h.closed hc).imp_right fun ⟨h₁, h₂⟩ => ⟨h₁, ?_⟩
        have := h.flow he
        rwa [hb, h₂, List.append_nil, List.append_nil] at this

/-- A read pops what it will return, or returns 0 at the FIN. -/
theorem of_pop (h : Exact r t) {len : ℕ} {p : Popped} {c' : Conn}
    (hp : t.sys.procs r = .readWait len) (hlen : 0 < len)
    (hok : PopOk len t.sys.conn.rx.rxq) (hcl : t.sys.conn.rx.closed = false)
    (hpop : p = readPop len 0 t.sys.conn.rx.rxq)
    (hside : c'.rxSide = t.sys.conn.rxSide.popped p) (hst : c'.state = t.sys.conn.state)
    (hsys : t'.sys =
      t.sys.move c' r (if p.readlen = 0 then .done 0 [] else .readCopy len p.q p.part))
    (harr : t'.arrived = t.arrived) (hout : t'.out = t.out)
    (heof : t'.eof = (t.eof || decide (p.readlen = 0))) (hshut : t'.shut = t.shut) :
    Exact r t' := by
  have hspec : PopSpec len 0 t.sys.conn.rx.rxq p := hpop ▸ readPop_spec len _ 0
  have hfin : t'.finArrived ↔ t.finArrived := by rw [Traced.finArrived, harr]; rfl
  have hconn : t'.sys.conn = c' := by rw [hsys]; rfl
  have hq : t'.sys.conn.rx.rxq = p.rest := by
    rw [hconn]
    exact congrArg (fun x : RxSide => x.rx.rxq) hside
  have hcl' : t'.sys.conn.rx.closed = p.fin := by
    rw [hconn, show c'.rx.closed = (t.sys.conn.rx.closed || p.fin) from
      congrArg (fun x : RxSide => x.rx.closed) hside, hcl, Bool.false_or]
  have hflow : t.eof = false → t.out ++ rxData t.sys.conn.rx.rxq = rxText t.arrived := by
    intro he
    simpa [hp, Proc.held] using h.flow he
  -- a pop that reaches the FIN leaves nothing behind
  have hrest : p.fin → t.finArrived ∧ p.readlen = rxBytes t.sys.conn.rx.rxq ∧
      rxData p.rest = [] := by
    intro hf
    rw [hpop] at hf
    obtain ⟨h₁, h₂⟩ := hok.2.readlen_eq hf
    rw [← hpop] at h₁ h₂
    have hw := hspec.whole h₂
    have hsplit : rxBytes t.sys.conn.rx.rxq = rxBytes p.q + rxBytes p.rest := by
      conv_lhs => rw [hspec.split]
      exact rxBytes_append _ _
    refine ⟨h.rxqFin (mem_of_readPop_fin hf), by omega, List.eq_nil_of_length_eq_zero ?_⟩
    rw [length_rxData]
    omega
  refine ⟨fun hf => ?_, fun hf => ?_, fun he => ?_, fun hc => ?_, ?_, fun he => ?_⟩
  · rw [hconn, hst]
    exact h.postFin (hfin.mp hf)
  · obtain ⟨m, hm, hf⟩ := hf
    refine hfin.mpr (h.rxqFin ⟨m, ?_, hf⟩)
    rw [hspec.split]
    exact List.mem_append_right _ (hq ▸ hm)
  · rw [heof, Bool.or_eq_false_iff, decide_eq_false_iff_not] at he
    have hheld : (t'.sys.procs r).held = rxData p.q := by
      rw [hsys, Sys.procs_move_self, if_neg he.2]
      rfl
    rw [hout, hheld, hq, harr, ← hflow he.1, hspec.split, rxData_append, List.append_assoc]
  · rw [hfin, hq]
    obtain ⟨h₁, -, h₂⟩ := hrest (hcl' ▸ hc)
    exact .inr ⟨h₁, h₂⟩
  · rw [hout, harr]
    exact h.pre
  · rw [hfin, hout, harr, hshut]
    cases heq : t.eof with
    | true => exact h.eof heq
    | false =>
        rw [heof, heq, Bool.false_or, decide_eq_true_iff] at he
        obtain ⟨h₁, h₂, -⟩ := hrest (by rw [hpop] at he ⊢; exact readPop_fin_of_zero hlen hok.1 he)
        refine .inr ⟨h₁, ?_⟩
        have hnil : rxData t.sys.conn.rx.rxq = [] :=
          List.eq_nil_of_length_eq_zero (by rw [length_rxData]; omega)
        rw [← hflow heq, hnil, List.append_nil]

/-- A read strips what it takes of the buffer at the head of `rxq`. -/
theorem of_copyPart (h : Exact r t) (hi : t.sys.RxInv) {len : ℕ} {q : List Mbuf} {c' : Conn}
    {bytes : List Byte} (hp : t.sys.procs r = .readCopy len q true)
    (hc : tcpReadCopy t.sys.conn len q true = .ok (c', bytes))
    (hsys : t'.sys = t.sys.move c' r (.readFinish bytes)) (harr : t'.arrived = t.arrived)
    (hout : t'.out = t.out) (heof : t'.eof = t.eof) (hshut : t'.shut = t.shut) : Exact r t' := by
  obtain ⟨m, m', rest, hq, -, hdata, hflags, he⟩ := hi.readCopy_eq hp
  rw [he] at hc
  cases hc
  have hfin : t'.finArrived ↔ t.finArrived := by rw [Traced.finArrived, harr]; rfl
  have hheld : (t.sys.procs r).held = rxData q := by rw [hp]; rfl
  have hmove : (rxData q ++ m.data.take (len - rxBytes q)) ++ (m'.data ++ rxData rest) =
      rxData q ++ rxData t.sys.conn.rx.rxq := by
    rw [hq, rxData_cons, hdata, List.append_assoc, ← List.append_assoc (m.data.take _),
      List.take_append_drop]
  refine ⟨fun hf => ?_, fun hf => ?_, fun he => ?_, fun hcl => ?_, ?_, fun he => ?_⟩
  · rw [hsys]
    exact h.postFin (hfin.mp hf)
  · refine hfin.mpr (h.rxqFin ?_)
    obtain ⟨a, ha, hf⟩ := hf
    rw [hsys, Sys.conn_move] at ha
    rw [hq]
    rcases List.mem_cons.mp ha with rfl | ha
    · exact ⟨m, List.mem_cons_self, hflags ▸ hf⟩
    · exact ⟨a, List.mem_cons_of_mem _ ha, hf⟩
  · have := h.flow (heof ▸ he)
    rw [hheld, List.append_assoc, ← hmove] at this
    rw [hout, hsys, Sys.procs_move_self, Sys.conn_move, harr, ← this, List.append_assoc]
    rfl
  · rw [hfin, hshut]
    rw [hsys, Sys.conn_move] at hcl ⊢
    refine (h.closed hcl).imp_right fun ⟨h₁, h₂⟩ => ⟨h₁, ?_⟩
    rw [hq, rxData_cons, List.append_eq_nil_iff] at h₂
    rw [rxData_cons, hdata, h₂.1, h₂.2, List.drop_nil, List.append_nil]
  · rw [hout, harr]
    exact h.pre
  · rw [hfin, hout, harr, hshut]
    exact h.eof (heof ▸ he)

/-- Segment text arrives. -/
theorem of_text (h : Exact r t) (app : List Mbuf) {st : TcpState}
    (hmove : AckMove t.sys.conn.state st) (htake : st.takesText)
    (happ : ∀ a ∈ app, a.text = a.data ∧ (a.flags.fin → t'.sys.conn.state.postFin))
    (hq : t'.sys.conn.rx.rxq = t.sys.conn.rx.rxq ++ app)
    (hcl : t'.sys.conn.rx.closed = t.sys.conn.rx.closed)
    (hprocs : t'.sys.procs = t.sys.procs) (harr : t'.arrived = t.arrived ++ app)
    (hout : t'.out = t.out) (heof : t'.eof = t.eof) (hshut : t'.shut = t.shut) : Exact r t' := by
  -- text is taken only before the FIN
  have hno : ¬ t.finArrived := by
    intro hf
    have hpost := hmove.postFin (h.postFin hf)
    rw [TcpState.not_takesText_of_postFin hpost] at htake
    cases htake
  have htext : rxText t'.arrived = rxText t.arrived ++ rxData app := by
    rw [harr, rxText_append, rxText_eq_rxData fun a ha => (happ a ha).1]
  refine ⟨fun hf => ?_, fun hf => ?_, fun he => ?_, fun hc => ?_, ?_, fun he => ?_⟩
  · obtain ⟨m, hm, hf⟩ := hf
    rw [harr] at hm
    rcases List.mem_append.mp hm with hm | hm
    · exact absurd ⟨m, hm, hf⟩ hno
    · exact (happ m hm).2 hf
  · obtain ⟨m, hm, hf⟩ := hf
    rw [hq] at hm
    rcases List.mem_append.mp hm with hm | hm
    · exact absurd (h.rxqFin ⟨m, hm, hf⟩) hno
    · exact ⟨m, by rw [harr]; exact List.mem_append_right _ hm, hf⟩
  · rw [htext, ← h.flow (heof ▸ he), hout, hprocs, hq, rxData_append]
    simp only [List.append_assoc]
  · rw [hshut]
    exact .inl ((h.closed (hcl ▸ hc)).resolve_right fun h' => hno h'.1)
  · rw [htext, hout]
    exact h.pre.trans (List.prefix_append _ _)
  · rw [hshut]
    exact .inl ((h.eof (heof ▸ he)).resolve_right fun h' => hno h'.1)

end Exact

/-! ## Steps and runs -/

theorem SameReaders.returnedIn_eq {s s' : Sys} (h : SameReaders s s') (e : Event) :
    returnedIn s s' e = none := by
  cases e with
  | run t io =>
      rw [returnedIn]
      rcases h t with ht | ⟨h₁, -⟩
      · rw [ht]
        cases s.procs t <;> rfl
      · rw [h₁]
  | _ => rfl

theorem SameReaders.held_eq {s s' : Sys} (h : SameReaders s s') (r : Tid) :
    (s'.procs r).held = (s.procs r).held := by
  rcases h r with hr | ⟨h₁, h₂⟩
  · rw [hr]
  · rw [Proc.held_of_reads h₁, Proc.held_of_reads h₂]

theorem RxEffect.err_eq_zero {s : Segment} {c c' : Conn} (h : RxEffect s c c')
    (he : c'.err = 0) : c.err = 0 := by
  cases h with
  | quiet hside _ => exact (congrArg RxSide.err hside).symm.trans he
  | syn _ _ hside => exact (congrArg RxSide.err hside).symm.trans he
  | reset _ hside =>
      have herr : c'.err = eConnReset := congrArg RxSide.err hside
      rw [herr] at he
      exact absurd he (by decide)
  | text _ _ _ _ htext _ hside _ =>
      have herr : c'.err = _ := congrArg RxSide.err hside
      rw [herr] at he
      exact htext.err_eq.symm.trans he

/-- A segment keeps the flow. -/
theorem Exact.segment {r : Tid} {s s' : Sys} {arr : List Mbuf} {out : List Byte} {eof shut : Bool}
    {f : Frame} {sndNxt : Seq} {io : Io} {seg : Segment} (h : Exact r ⟨s, arr, out, eof, shut⟩)
    (hi : s.RxInv) (hg : ReadOk r s (.rx f sndNxt io)) (hparse : tcpRxParse f = .ok (some seg))
    (hwf : seg.WellFormed) (heff : RxEffect seg s.conn s'.conn) (hprocs : s'.procs = s.procs)
    (herr : s'.conn.err = 0) :
    Exact r ⟨s', arr ++ appended s.conn.rxSide s'.conn.rxSide, out, eof, shut⟩ := by
  -- a segment without text
  have hsame : s'.conn.rx = s.conn.rx → (s.conn.state.postFin → s'.conn.state.postFin) →
      Exact r ⟨s', arr ++ appended s.conn.rxSide s'.conn.rxSide, out, eof, shut⟩ := by
    intro hrx hpost
    have happ : appended s.conn.rxSide s'.conn.rxSide = [] := by
      change s'.conn.rx.rxq.drop s.conn.rx.rxq.length = []
      rw [hrx]
      simp
    rw [happ, List.append_nil]
    exact h.of_keep rfl rfl rfl id (by rw [hrx]) (by rw [hprocs])
      (fun hc => .inl (by rw [← hrx]; exact hc)) hpost
  cases heff with
  | quiet hside hmove => exact hsame (congrArg RxSide.rx hside) hmove.postFin
  | syn hst _ hside =>
      refine hsame (congrArg RxSide.rx hside) fun hp => ?_
      rw [hst] at hp
      exact absurd hp (by decide)
  | reset _ hside =>
      have : s'.conn.err = eConnReset := congrArg RxSide.err hside
      rw [this] at herr
      exact absurd herr (by decide)
  | @text st x used wake hmove htake hpos hacc htext _ hside hst =>
      have hrxq : s'.conn.rx.rxq = x.rx.rxq := congrArg (fun y : RxSide => y.rx.rxq) hside
      have hcl : s'.conn.rx.closed = s.conn.rx.closed :=
        (congrArg (fun y : RxSide => y.rx.closed) hside).trans (by cases htext <;> rfl)
      have happ : appended s.conn.rxSide s'.conn.rxSide = appended s.conn.rxSide x := by
        change s'.conn.rx.rxq.drop _ = x.rx.rxq.drop _
        rw [hrxq]
      have hooo := hi.rxOk.ooo_of_ackMove hmove htake
      have hpre : s.conn.state.postFin = false := by
        cases hp : s.conn.state.postFin with
        | false => rfl
        | true =>
            rw [TcpState.not_takesText_of_postFin (hmove.postFin hp)] at htake
            cases htake
      have hfit : seg.flags.fin → ahead seg.seq s.conn.rcv.nxt ≤ 0 →
          ahead seg.seq s.conn.rcv.nxt + seg.len.toNat ≤ s.conn.rcv.wnd.toNat := by
        intro hf hlo
        rw [ReadOk, hparse] at hg
        exact (Segment.fits_iff hwf hpos hi.rxOk.wnd_le hacc).mp (hg hf hpre hacc hlo)
      have hlen : seg.mbuf.segLen = seg.len.toNat := Segment.WellFormed.segLen_mbuf seg
      refine h.of_text (appended s.conn.rxSide x) hmove htake ?_ ?_ hcl hprocs (by rw [happ])
        rfl rfl rfl
      · intro a ha
        obtain ⟨h₁, h₂⟩ := htext.text_eq (hwf.mbuf hpos) hooo.noFin
          (fun hf hlo => by rw [hlen]; exact hfit hf hlo) a ha
        refine ⟨h₁, fun hf => ?_⟩
        have hfin : seg.flags.fin := h₂ hf
        rw [hfin, if_pos rfl] at hst
        change s'.conn.state.postFin
        rw [hst]
        exact TcpState.postFin_afterFin htake
      · change s'.conn.rx.rxq = s.conn.rx.rxq ++ _
        rw [hrxq, htext.rxq_eq]
        rfl

/-- The return of a read is seen. -/
theorem returnedIn_done {s : Sys} {t : Tid} (c : Conn) (io : Io) (h : (s.procs t).reads) (ret : ℤ)
    (bytes : List Byte) :
    returnedIn s (s.move c t (.done ret bytes)) (.run t io) = some (ret, bytes) := by
  simp [returnedIn, h]

theorem arrivedIn_eq_nil {s s' : Sys} (h : s'.conn.rx.rxq = s.conn.rx.rxq) (e : Event) :
    arrivedIn s s' e = [] := by
  cases e with
  | rx f sndNxt io =>
      change s'.conn.rx.rxq.drop s.conn.rx.rxq.length = []
      simp [h]
  | _ => rfl

/-- A read returns what it has taken. -/
theorem Exact.returned {r : Tid} {s : Sys} {arr : List Mbuf} {out bytes : List Byte}
    {eof shut : Bool} {c : Conn} (h : Exact r ⟨s, arr, out, eof, shut⟩) (io : Io)
    (hr : (s.procs r).reads) (hb : (s.procs r).held = bytes) (hne : bytes ≠ [])
    (hst : c.state = s.conn.state) (hq : c.rx.rxq = s.conn.rx.rxq)
    (hcl : c.rx.closed = s.conn.rx.closed) :
    let s' := s.move c r (.done bytes.length bytes)
    let ret := returnedIn s s' (.run r io)
    Exact r ⟨s', arr ++ arrivedIn s s' (.run r io),
      out ++ (if eof then [] else (ret.map Prod.snd).getD []),
      eof || ret.any fun r => r.1 == 0, shut || shutIn s s' (.run r io)⟩ := by
  have hret := returnedIn_done c io hr bytes.length bytes
  refine h.of_return bytes hb hst hq hcl ?_ ?_ ?_ ?_ ?_
  · simp [Proc.held]
  · simp [arrivedIn]
  · simp [hret, hne]
  · simp [shutIn, hcl]
  · simp [hret]

/-- A step that leaves the queue and the reader alone. -/
theorem ReadInv.quiet {r : Tid} {s s' : Sys} {e : Event} {arr : List Mbuf} {out : List Byte}
    {eof shut : Bool} (h : ReadInv r ⟨s, arr, out, eof, shut⟩)
    (hq : s'.conn.rx.rxq = s.conn.rx.rxq) (herr : s'.conn.err = s.conn.err)
    (hcl : s'.conn.rx.closed → s.conn.rx.closed ∨ shutIn s s' e)
    (hmove : AppMove s.conn.state s'.conn.state) (hret : returnedIn s s' e = none)
    (hheld : (s'.procs r).held = (s.procs r).held) (h0 : s'.conn.err = 0) :
    Exact r ⟨s', arr ++ arrivedIn s s' e,
      out ++ (if eof then [] else ((returnedIn s s' e).map Prod.snd).getD []),
      eof || (returnedIn s s' e).any fun r => r.1 == 0, shut || shutIn s s' e⟩ := by
  rw [hret, arrivedIn_eq_nil hq]
  exact (h.exact (herr ▸ h0)).of_keep (by simp) (by simp) (by simp) (by simp +contextual) hq hheld
    (fun hc => (hcl hc).imp_right fun hs => by simp [hs]) hmove.postFin

/-- The reader takes what `tcp_read_wait` popped. -/
theorem OneReader.popped {r : Tid} {s : Sys} {c : Conn} {len : ℕ} {p : Popped}
    (h : OneReader r s) (hspec : PopSpec len 0 s.conn.rx.rxq p) :
    OneReader r (s.move c r (if p.readlen = 0 then .done 0 [] else .readCopy len p.q p.part)) := by
  refine h.move ?_ ?_ ?_
  · split <;> rintro l ⟨⟩
  · split
    · rintro l q ⟨⟩
    · rename_i hn
      intro l q hpq
      injection hpq with _ hq hpart
      have := hspec.whole hpart
      rw [← hq]
      omega
  · split <;> rintro l ⟨⟩

/-- **Every step under the condition keeps the invariant.** -/
theorem traceStep_readInv {r : Tid} {t t' : Traced} {e : Event} (h : ReadInv r t)
    (hg : ReadOk r t.sys e) (hstep : traceStep t e = .ok t') : ReadInv r t' := by
  obtain ⟨s, arr, out, eof, shut⟩ := t
  obtain ⟨s', hs, h'⟩ := bind_eq_ok.mp hstep
  cases h'
  change sysStep s e = .ok s' at hs
  change ReadOk r s e at hg
  have hi : s.RxInv := h.rxInv
  have ho : OneReader r s := h.one
  have hrx' : s'.RxInv := sysStep_rxInv hi hs
  have hsame : AppMove s.conn.state s.conn.state := .shut .same
  cases sysStep_rxMove hi.rxOk hs with
  | inert hside hmove hr =>
      have hrx : s'.conn.rx = s.conn.rx := congrArg RxSide.rx hside
      exact ⟨hrx', ho.of_same hr, h.quiet (by rw [hrx]) (congrArg RxSide.err hside)
        (fun hc => .inl (hrx ▸ hc)) hmove (hr.returnedIn_eq e) (hr.held_eq r)⟩
  | @shut t io _ hp hside hmove hr =>
      obtain ⟨-, hq, -, herr, -⟩ := RxSide.shut_keeps hside
      have hclosed : s'.conn.rx.closed = true →
          s.conn.rx.closed = true ∨ shutIn s s' (.run t io) = true := by
        intro hc
        cases hcl : s.conn.rx.closed with
        | true => exact .inl rfl
        | false => exact .inr (by simp [shutIn, hp, hcl, hc])
      exact ⟨hrx', ho.of_same hr, h.quiet hq herr hclosed hmove (hr.returnedIn_eq _) (hr.held_eq r)⟩
  | @fail _ _ err hside hst hr h0 =>
      have herr : s'.conn.err = err := congrArg RxSide.err hside
      refine ⟨hrx', ho.of_same hr, fun he => ?_⟩
      obtain ⟨io, rfl⟩ := h0 (herr.symm.trans he)
      exact absurd rfl hg
  | @segment f sndNxt io seg _ hparse hwf heff hprocs =>
      have hr : SameReaders s s' := fun u => .inl (congrFun hprocs u)
      refine ⟨hrx', ho.of_same hr, fun he => ?_⟩
      have he' : s.conn.err = 0 := heff.err_eq_zero he
      simpa [returnedIn, arrivedIn, shutIn] using
        (h.exact he').segment hi hg hparse hwf heff hprocs he
  | @start t len hfree =>
      obtain ⟨rfl, hlen⟩ := hg
      refine ⟨hrx', ho.move ?_ ?_ ?_, h.quiet rfl rfl .inl hsame rfl ?_⟩
      · rintro l ⟨⟩
        exact hlen
      · rintro l q ⟨⟩
      · rintro b ⟨⟩
      · rw [Sys.procs_move_self]
        rw [Sys.free] at hfree
        split at hfree <;> simp_all [Proc.held]
  | sleep _ hp _ _ =>
      exact ⟨hrx', ho.of_same (SameReaders.refl _), h.quiet rfl rfl .inl hsame
        (by simp [returnedIn, hp]) rfl⟩
  | @closed t io len _ hp hcl =>
      obtain rfl : t = r := ho.only t (by rw [hp]; rfl)
      refine ⟨hrx', ho.done, fun he => ?_⟩
      have he' : s.conn.err = 0 := he
      refine (h.exact he).of_closed hcl ?_ rfl ?_ ?_ ?_ ?_
      all_goals simp [returnedIn, arrivedIn, shutIn, hp, he', Proc.reads, Proc.shuts, Proc.held]
  | @pop t io len p c' ha hp hcl hex hne hpop hside hst =>
      obtain rfl : t = r := ho.only t (by rw [hp]; rfl)
      have hlen := ho.wait len hp
      have hspec : PopSpec len 0 s.conn.rx.rxq p := hpop ▸ readPop_spec len _ 0
      have hok : PopOk len s.conn.rx.rxq := by
        rw [ReadOk, hp] at hg
        exact hg ha hcl hex hne
      refine ⟨hrx', ho.popped hspec, fun he => ?_⟩
      have he' : s.conn.err = 0 := by
        rw [← he]
        exact (congrArg RxSide.err hside).symm
      have hret : returnedIn s (s.move c' t (if p.readlen = 0 then .done 0 []
          else .readCopy len p.q p.part)) (.run t io) =
            if p.readlen = 0 then some (0, []) else none := by
        simp only [returnedIn, hp, Proc.reads, Sys.procs_move_self]
        split_ifs <;> rfl
      refine (h.exact he').of_pop hp hlen hok hcl hpop hside hst rfl ?_ ?_ ?_ ?_
      · simp [arrivedIn]
      · rw [hret]
        split_ifs <;> simp
      · rw [hret]
        split_ifs with hn <;> simp [hn]
      · simp [shutIn, hp, Proc.shuts]
  | @copy t io len q bytes _ hp hb =>
      obtain rfl : t = r := ho.only t (by rw [hp]; rfl)
      refine ⟨hrx', ho.done, fun he => ?_⟩
      have hne : bytes ≠ [] := by
        rintro rfl
        have := congrArg List.length hb
        rw [length_flatten_data] at this
        exact ho.copy len q hp this.symm
      exact (h.exact he).returned io (by rw [hp]; rfl) (by rw [hp, hb]; rfl) hne rfl rfl rfl
  | @copyPart t io len q bytes c' _ hp hc =>
      obtain rfl : t = r := ho.only t (by rw [hp]; rfl)
      obtain ⟨m, m', rest, hq, hlen, -, -, hcopy⟩ := hi.readCopy_eq hp
      refine ⟨hrx', ho.move (fun _ h => by cases h) (fun _ _ h => by cases h) ?_, fun he => ?_⟩
      · rintro b ⟨⟩
        obtain ⟨m₁, rest₁, hq₁, h₁, h₂, -⟩ := hi.part t len q hp
        rw [hcopy] at hc
        cases hc
        refine List.ne_nil_of_length_pos ?_
        rw [hq] at hq₁
        cases hq₁
        simp
        omega
      · have he' : s.conn.err = 0 := by
          rw [hcopy] at hc
          cases hc
          exact he
        refine (h.exact he').of_copyPart hi hp hc rfl ?_ ?_ ?_ ?_
        all_goals simp [arrivedIn, returnedIn, shutIn, hp, Proc.shuts]
  | @finish t io bytes _ hp =>
      obtain rfl : t = r := ho.only t (by rw [hp]; rfl)
      refine ⟨hrx', ho.done, fun he => ?_⟩
      exact (h.exact he).returned io (by rw [hp]; rfl) (by rw [hp]; rfl) (ho.finish bytes hp)
        rfl rfl rfl

theorem Sys.Start.readInv {s : Sys} (h : s.Start) (r : Tid) : ReadInv r (.start s) := by
  have hq := h.rxq_nil
  have hrx := h.rxInv
  obtain ⟨c, rfl, hc, -⟩ := h.fresh
  have hcl : c.rx.closed = false := by rw [hc]; rfl
  have hone : OneReader r (Sys.ofConn c) := ⟨nofun, nofun, nofun, nofun⟩
  refine ⟨hrx, hone, fun _ => ⟨?_, ?_, ?_, ?_, ?_, ?_⟩⟩
  · rintro ⟨m, hm, -⟩
    cases hm
  · rintro ⟨m, hm, -⟩
    change m ∈ (Sys.ofConn c).conn.rx.rxq at hm
    rw [hq] at hm
    cases hm
  · intro _
    change [] ++ [] ++ rxData (Sys.ofConn c).conn.rx.rxq = []
    rw [hq]
    rfl
  · intro hc'
    exact absurd (hcl.symm.trans hc') (by simp)
  · exact List.nil_prefix
  · intro he
    cases he

/-- **Reads are exact** along every run whose steps meet the condition: on a
connection that has not failed, what the reads of one task returned is a prefix of
the received stream; with what the task holds and what waits on `rxq` it is the
received stream, as long as no read returned 0; and a read returns 0 only after the
application shut the receive side down, or when the FIN of the peer has arrived and
the whole stream was returned. -/
theorem reads_exact {r : Tid} {s₀ : Sys} {es : List Event} {t : Traced} (h₀ : s₀.Start)
    (hg : Along traceStep (fun t e => ReadOk r t.sys e) (.start s₀) es)
    (h : exec traceStep (.start s₀) es = .ok t) (herr : t.sys.conn.err = 0) :
    t.out <+: rxText t.arrived ∧
    (t.eof = false →
      t.out ++ (t.sys.procs r).held ++ rxData t.sys.conn.rx.rxq = rxText t.arrived) ∧
    (t.eof → t.shut ∨ t.finArrived ∧ t.out = rxText t.arrived) := by
  have hi := exec_invariant (fun _ _ _ hs hg hstep => traceStep_readInv hs hg hstep)
    (h₀.readInv r) hg h
  have he := hi.exact herr
  exact ⟨he.pre, he.flow, he.eof⟩

/-- Two bytes and the FIN, read by one read; the next read returns 0. -/
theorem reads_exact_at_fin : ∃ t : Traced,
    exec traceStep (.start accepted)
      [.rx (peerFrame 1 { ack := true, fin := true } [7, 8]) 1 (Io.good 0),
        .call 0 (.read 5), .run 0 (Io.good 0), .run 0 (Io.good 0),
        .call 0 (.read 5), .run 0 (Io.good 0)] = .ok t ∧
    t.eof ∧ t.shut = false ∧ t.out = [7, 8] ∧
    (t.eof → t.shut ∨ t.finArrived ∧ t.out = rxText t.arrived) :=
  have h := exec_final (by decide)
  ⟨_, h, by decide, by decide, by decide,
    (reads_exact (r := 0) accepted_start (by decide) h (by decide)).2.2⟩

/-- A read that ends inside the buffer with the FIN: the next read returns 0 with
two bytes of the stream still on `rxq`. -/
theorem read_loses_text_before_fin : accepted.Start ∧ ∃ t : Traced,
    exec traceStep (.start accepted)
      [.rx (peerFrame 1 { ack := true, fin := true } [7, 8, 9]) 1 (Io.good 0),
        .call 0 (.read 1), .run 0 (Io.good 0), .run 0 (Io.good 0), .run 0 (Io.good 0),
        .call 0 (.read 5), .run 0 (Io.good 0)] = .ok t ∧
    t.sys.conn.err = 0 ∧ t.eof ∧ t.shut = false ∧ t.out = [7] ∧ rxText t.arrived = [7, 8, 9] ∧
    rxData t.sys.conn.rx.rxq = [8, 9] :=
  ⟨accepted_start, _, exec_final (by decide), by decide, by decide,
    by decide, by decide, by decide, by decide⟩

end Skyloft
