import Skyloft.Net.Readers

/-!
# The ingress path never faults

The invariant behind the assertions of the ingress path.  Its heart is a credit
account: the receive window and the bytes that wait on `rxq` together never
exceed `TCP_WIN`.  A reader that takes only part of a buffer is credited for it
before it strips the buffer, so while it owns the receive side the account may be
off by what it still has to strip, and by nothing else.

## Main definitions

* `rxBytes` — the bytes on a queue.
* `Proc.holdsRx` — the program points at which a reader owns the receive side.
* `Sys.RxInv` — the invariant, and `sysStep_rxInv` that every step keeps it.
* `runRx_never_faults` — no assertion of the ingress path fails.
-/

namespace Skyloft

open Run Serial

/-- The bytes that wait on a queue. -/
def rxBytes (q : List Mbuf) : ℕ := (q.map Mbuf.len).sum

@[simp] theorem rxBytes_nil : rxBytes [] = 0 := rfl

@[simp] theorem rxBytes_cons (m : Mbuf) (q : List Mbuf) :
    rxBytes (m :: q) = m.len + rxBytes q := by
  simp [rxBytes]

@[simp] theorem rxBytes_append (q r : List Mbuf) : rxBytes (q ++ r) = rxBytes q + rxBytes r := by
  simp [rxBytes]

theorem length_flatten_data (q : List Mbuf) : (q.map Mbuf.data).flatten.length = rxBytes q := by
  induction q with
  | nil => rfl
  | cons m q ih => simp [ih]

/-! ## The pop loop -/

/-- The pop loop splits the queue.  It stops inside a buffer exactly when `part` is
set, and then it has counted `len` bytes. -/
structure PopSpec (len n : ℕ) (q : List Mbuf) (p : Popped) : Prop where
  split : q = p.q ++ p.rest
  whole : p.part = false → p.readlen = n + rxBytes p.q
  inside : p.part = true → p.readlen = len ∧ ∃ m rest, p.rest = m :: rest ∧
    n + rxBytes p.q < len ∧ len < n + rxBytes p.q + m.len

theorem readPop_spec (len : ℕ) : ∀ (q : List Mbuf) (n : ℕ), PopSpec len n q (readPop len n q) := by
  intro q
  induction q with
  | nil => intro n; exact ⟨rfl, fun _ => rfl, fun h => absurd h (by simp [readPop])⟩
  | cons m rest ih =>
      intro n
      rw [readPop]
      split_ifs with h₁ h₂ h₃
      · exact ⟨rfl, fun _ => rfl, fun h => absurd h (by simp)⟩
      · refine ⟨rfl, fun h => absurd h (by simp), fun _ => ⟨rfl, m, rest, rfl, ?_, ?_⟩⟩
        · simpa using h₁
        · simp only [rxBytes_nil]
          omega
      · have hp := ih (n + m.len)
        refine ⟨congrArg (m :: ·) hp.split, fun h => ?_, fun h => ?_⟩
        · have := hp.whole h
          simp only [rxBytes_cons]
          omega
        · obtain ⟨he, x, r, hr, h₁, h₂⟩ := hp.inside h
          refine ⟨he, x, r, hr, ?_, ?_⟩ <;> simp only [rxBytes_cons] <;> omega
      · exact ⟨rfl, fun _ => rfl, fun h => absurd h (by simp)⟩

/-- A pop never counts more than the queue holds. -/
theorem PopSpec.readlen_le {len : ℕ} {q : List Mbuf} {p : Popped} (h : PopSpec len 0 q p) :
    p.readlen ≤ rxBytes q := by
  rw [h.split, rxBytes_append]
  cases hp : p.part with
  | false =>
      have := h.whole hp
      omega
  | true =>
      obtain ⟨he, m, rest, hr, h₁, h₂⟩ := h.inside hp
      rw [hr, rxBytes_cons]
      omega

/-! ## Segment text and the account -/

/-- The receive window and the bytes on `rxq`. -/
def RxSide.load (x : RxSide) : ℕ := x.rcv.wnd.toNat + rxBytes x.rx.rxq

theorem Clip.len_le {rcv : RcvVars} {m m' : Mbuf} (h : Clip rcv m m') : m'.len ≤ m'.segLen := by
  have := h.len
  omega

theorem Drained.load_le {rcv rcv' : RcvVars} {q app left : List Mbuf}
    (h : Drained rcv q rcv' app left) : rcv'.wnd.toNat + rxBytes app ≤ rcv.wnd.toNat := by
  induction h with
  | nil => simp
  | stale _ _ ih => exact ih
  | wait _ => simp
  | take _ _ hc _ ih =>
      have h₁ := hc.segLen_le_wnd
      have h₂ := hc.len_le
      rw [RcvVars.toNat_advance_wnd h₁] at ih
      simp only [rxBytes_cons]
      omega

/-- Segment text appends to `rxq` and takes as much from the window. -/
theorem TextOf.load_le {x x' : RxSide} {m : Mbuf} {used wake : Bool}
    (h : TextOf x m x' used wake) :
    x'.load ≤ x.load ∧ x.rx.rxq <+: x'.rx.rxq ∧ x'.rx.exclusive = x.rx.exclusive := by
  cases h with
  | inOrder _ hc hd =>
      have h₁ := hc.segLen_le_wnd
      have h₂ := hc.len_le
      have h₃ := hd.load_le
      rw [RcvVars.toNat_advance_wnd h₁] at h₃
      refine ⟨?_, ⟨_, rfl⟩, rfl⟩
      simp only [RxSide.load, RxSide.drained, rxBytes_append, rxBytes_cons]
      omega
  | queued _ _ => exact ⟨le_refl _, ⟨[], by simp⟩, rfl⟩
  | unused _ => exact ⟨le_refl _, ⟨[], by simp⟩, rfl⟩

/-- The segments that a call of `tcp_rx_text` appends to `rxq`. -/
def appended (x x' : RxSide) : List Mbuf := x'.rx.rxq.drop x.rx.rxq.length

theorem TextOf.rxq_eq {x x' : RxSide} {m : Mbuf} {used wake : Bool}
    (h : TextOf x m x' used wake) : x'.rx.rxq = x.rx.rxq ++ appended x x' := by
  obtain ⟨r, hr⟩ := h.load_le.2.1
  rw [appended, ← hr, List.drop_left]

/-- A segment leaves the queue of a connection that still takes text in order. -/
theorem RxEffect.ooo {s : Segment} {c c' : Conn} (h : RxEffect s c c') (hc : c.RxOk) :
    (c'.state < .established → c'.rx.rxqOoo = []) ∧
      (c'.state.takesText → Ooo 0 c'.rcv.nxt c'.rx.rxqOoo) := by
  cases h with
  | quiet hside hmove =>
      have := hc.of_same hside hmove
      exact ⟨this.early, this.ooo⟩
  | syn hst _ hside =>
      have hrx : c'.rx.rxqOoo = [] := by
        have hrx' : c'.rx = c.rx := congrArg RxSide.rx hside
        rw [hrx', hc.early (by rw [hst]; decide)]
      exact ⟨fun _ => hrx, fun _ => by rw [hrx]; exact Ooo.nil _ _⟩
  | reset hst hside =>
      have hrx : c'.rx.rxqOoo = [] := congrArg (fun x : RxSide => x.rx.rxqOoo) hside
      exact ⟨fun _ => hrx, fun _ => by rw [hrx]; exact Ooo.nil _ _⟩
  | @text st x used wake hmove htake hpos hacc hx ho hside hst =>
      have hnxt : c'.rcv.nxt = x.rcv.nxt := congrArg (fun x : RxSide => x.rcv.nxt) hside
      have hooo : c'.rx.rxqOoo = x.rx.rxqOoo := congrArg (fun x : RxSide => x.rx.rxqOoo) hside
      rw [hnxt, hooo]
      cases hf : s.flags.fin with
      | false =>
          rw [hf, if_neg (by simp)] at hst
          rw [hst]
          exact ⟨fun h => absurd h (TcpState.established_le_of_takesText htake), fun _ => ho hf⟩
      | true =>
          rw [hf, if_pos rfl] at hst
          obtain ⟨h₁, h₂⟩ := TcpState.afterFin_of_takesText htake
          rw [hst]
          exact ⟨fun h => absurd h h₁, fun h => absurd h (by simp [h₂])⟩

/-! ## The invariant -/

/-- The program points at which a reader owns the receive side. -/
def Proc.holdsRx : Proc → Bool
  | .readCopy _ _ true | .readFinish _ => true
  | _ => false

/-- The invariant of the receive side.  The window and the bytes on `rxq` stay
within `TCP_WIN`; while a reader owns the receive side, they may exceed it by what
that reader still has to strip from the first buffer. -/
structure Sys.RxInv (s : Sys) : Prop where
  early : s.conn.state < .established → s.conn.rx.rxqOoo = []
  ooo : s.conn.state.takesText → Ooo 0 s.conn.rcv.nxt s.conn.rx.rxqOoo
  owner : s.conn.rx.exclusive → ∃ t, (s.procs t).holdsRx
  unique : ∀ t u, (s.procs t).holdsRx → (s.procs u).holdsRx → t = u
  holder : ∀ t, (s.procs t).holdsRx → s.conn.rx.exclusive
  free : s.conn.rx.exclusive = false → s.conn.rxSide.load ≤ tcpWin
  stripped : ∀ t bytes, s.procs t = .readFinish bytes → s.conn.rxSide.load ≤ tcpWin
  part : ∀ t len q, s.procs t = .readCopy len q true → ∃ m rest, s.conn.rx.rxq = m :: rest ∧
    rxBytes q < len ∧ len < rxBytes q + m.len ∧
    s.conn.rxSide.load ≤ tcpWin + (len - rxBytes q)

namespace Sys.RxInv

variable {s s' : Sys}

theorem rxOk (h : s.RxInv) : s.conn.RxOk where
  early := h.early
  ooo := h.ooo
  wnd_le := by
    have hload : s.conn.rxSide.load = s.conn.rcv.wnd.toNat + rxBytes s.conn.rx.rxq := rfl
    cases hex : s.conn.rx.exclusive with
    | false =>
        have := h.free hex
        omega
    | true =>
        obtain ⟨t, ht⟩ := h.owner hex
        cases hp : s.procs t with
        | readFinish bytes =>
            have := h.stripped t bytes hp
            omega
        | readCopy len q part =>
            cases part with
            | false => simp [hp, Proc.holdsRx] at ht
            | true =>
                obtain ⟨m, rest, hq, h₁, h₂, h₃⟩ := h.part t len q hp
                rw [hq, rxBytes_cons] at hload
                omega
        | _ => simp [hp, Proc.holdsRx] at ht

/-- A step that leaves the owners alone and the account no worse. -/
theorem of_keep (h : s.RxInv)
    (hprocs : ∀ t, s'.procs t = s.procs t ∨
      ((s.procs t).holdsRx = false ∧ (s'.procs t).holdsRx = false))
    (hex : s'.conn.rx.exclusive = s.conn.rx.exclusive)
    (hload : s'.conn.rxSide.load ≤ s.conn.rxSide.load)
    (hq : s.conn.rx.exclusive → s.conn.rx.rxq <+: s'.conn.rx.rxq)
    (hearly : s'.conn.state < .established → s'.conn.rx.rxqOoo = [])
    (hooo : s'.conn.state.takesText → Ooo 0 s'.conn.rcv.nxt s'.conn.rx.rxqOoo) : s'.RxInv := by
  have hsame : ∀ t, (s'.procs t).holdsRx = (s.procs t).holdsRx := by
    intro t
    rcases hprocs t with ht | ⟨h₁, h₂⟩
    · rw [ht]
    · rw [h₁, h₂]
  have hback : ∀ t, (s'.procs t).holdsRx → s'.procs t = s.procs t := by
    intro t ht
    rcases hprocs t with he | ⟨-, h₂⟩
    · exact he
    · rw [h₂] at ht
      cases ht
  refine ⟨hearly, hooo, fun he => ?_, fun t u ht hu => ?_, fun t ht => ?_, fun he => ?_,
    fun t bytes ht => ?_, fun t len q ht => ?_⟩
  · obtain ⟨t, ht⟩ := h.owner (hex ▸ he)
    exact ⟨t, (hsame t).trans ht⟩
  · exact h.unique t u ((hsame t).symm.trans ht) ((hsame u).symm.trans hu)
  · rw [hex]
    exact h.holder t ((hsame t).symm.trans ht)
  · exact hload.trans (h.free (hex ▸ he))
  · have he := hback t (by rw [ht]; rfl)
    exact hload.trans (h.stripped t bytes (he ▸ ht))
  · have he := hback t (by rw [ht]; rfl)
    rw [he] at ht
    obtain ⟨m, rest, hm, h₁, h₂, h₃⟩ := h.part t len q ht
    obtain ⟨r, hr⟩ := hq (h.holder t (by rw [ht]; rfl))
    exact ⟨m, rest ++ r, by rw [← hr, hm]; rfl, h₁, h₂, hload.trans h₃⟩

end Sys.RxInv

theorem Proc.holdsRx_of_reads {p : Proc} (h : p.reads = false) : p.holdsRx = false := by
  cases p <;> first | rfl | cases h

theorem SameReaders.holders {s s' : Sys} (h : SameReaders s s') :
    ∀ t, s'.procs t = s.procs t ∨ ((s.procs t).holdsRx = false ∧ (s'.procs t).holdsRx = false) :=
  fun t => (h t).imp_right fun ⟨h₁, h₂⟩ => ⟨Proc.holdsRx_of_reads h₁, Proc.holdsRx_of_reads h₂⟩

/-- A task that owns nothing moves to a point where it owns nothing. -/
theorem holders_move {s : Sys} {c : Conn} {t : Tid} {p : Proc} (h : (s.procs t).holdsRx = false)
    (hp : p.holdsRx = false) : ∀ u, (s.move c t p).procs u = s.procs u ∨
      ((s.procs u).holdsRx = false ∧ ((s.move c t p).procs u).holdsRx = false) := by
  intro u
  by_cases hu : u = t
  · subst hu
    exact .inr ⟨h, by simpa using hp⟩
  · exact .inl (s.procs_move_of_ne c p hu)

theorem AppMove.keeps {st st' : TcpState} (h : AppMove st st') :
    (st' < .established → st < .established) ∧ (st'.takesText → st.takesText) := by
  cases h with
  | shut h =>
      cases h with
      | same => exact ⟨id, id⟩
      | finWait1 => exact ⟨by decide, fun _ => rfl⟩
      | lastAck => exact ⟨by decide, by decide⟩
  | expire => exact ⟨fun h => absurd h (by decide), fun h => absurd h (by decide)⟩

namespace Sys.RxInv

variable {s : Sys}

theorem not_holds (h : s.RxInv) (hex : s.conn.rx.exclusive = false) (t : Tid) :
    (s.procs t).holdsRx = false := by
  cases hh : (s.procs t).holdsRx with
  | false => rfl
  | true => exact absurd (h.holder t hh) (by simp [hex])

/-- A reader pops buffers: their bytes move from `rxq` to the window. -/
theorem pop (h : s.RxInv) {t : Tid} {len : ℕ} {c' : Conn}
    (hex : s.conn.rx.exclusive = false)
    (hside : c'.rxSide = s.conn.rxSide.popped (readPop len 0 s.conn.rx.rxq))
    (hst : c'.state = s.conn.state) :
    (s.move c' t (if (readPop len 0 s.conn.rx.rxq).readlen = 0 then .done 0 []
      else .readCopy len (readPop len 0 s.conn.rx.rxq).q
        (readPop len 0 s.conn.rx.rxq).part)).RxInv := by
  have hspec := readPop_spec len s.conn.rx.rxq 0
  have hle := hspec.readlen_le
  generalize readPop len 0 s.conn.rx.rxq = p at *
  have hfree : s.conn.rcv.wnd.toNat + rxBytes s.conn.rx.rxq ≤ tcpWin := h.free hex
  have hwin : tcpWin < 2 ^ 32 := by decide
  have hrxq : c'.rx.rxq = p.rest := congrArg (fun x : RxSide => x.rx.rxq) hside
  have hooo : c'.rx.rxqOoo = s.conn.rx.rxqOoo := congrArg (fun x : RxSide => x.rx.rxqOoo) hside
  have hnxt : c'.rcv.nxt = s.conn.rcv.nxt := congrArg (fun x : RxSide => x.rcv.nxt) hside
  have hex' : c'.rx.exclusive = p.part := by
    have : c'.rx.exclusive = (s.conn.rx.exclusive || p.part) :=
      congrArg (fun x : RxSide => x.rx.exclusive) hside
    rw [this, hex, Bool.false_or]
  have hwnd : c'.rcv.wnd.toNat = s.conn.rcv.wnd.toNat + p.readlen := by
    have : c'.rcv.wnd = s.conn.rcv.wnd + BitVec.ofNat 32 p.readlen :=
      congrArg (fun x : RxSide => x.rcv.wnd) hside
    rw [this, BitVec.toNat_add, BitVec.toNat_ofNat, Nat.add_mod_mod]
    exact Nat.mod_eq_of_lt (by omega)
  have hload : c'.rxSide.load = s.conn.rcv.wnd.toNat + p.readlen + rxBytes p.rest := by
    change c'.rcv.wnd.toNat + rxBytes c'.rx.rxq = _
    rw [hwnd, hrxq]
  have hsplit : rxBytes s.conn.rx.rxq = rxBytes p.q + rxBytes p.rest := by
    rw [hspec.split, rxBytes_append]
  have hother : ∀ u, u ≠ t → (s.move c' t (if p.readlen = 0 then .done 0 []
      else .readCopy len p.q p.part)).procs u = s.procs u := by
    intro u hu
    exact s.procs_move_of_ne _ _ hu
  have hself : (s.move c' t (if p.readlen = 0 then .done 0 []
      else .readCopy len p.q p.part)).procs t =
        if p.readlen = 0 then .done 0 [] else .readCopy len p.q p.part :=
    s.procs_move_self _ _ _
  cases hpart : p.part with
  | false =>
      rw [hpart] at hex' hother hself
      have hnone : ∀ u, ((s.move c' t (if p.readlen = 0 then .done 0 []
          else .readCopy len p.q false)).procs u).holdsRx = false := by
        intro u
        by_cases hu : u = t
        · subst hu
          rw [hself]
          split <;> rfl
        · rw [hother u hu]
          exact h.not_holds hex u
      have hw := hspec.whole hpart
      refine ⟨fun he => ?_, fun he => ?_, fun he => ?_, fun u v hu _ => ?_, fun u hu => ?_,
        fun _ => ?_, fun u bytes hu => ?_, fun u l q hu => ?_⟩
      · exact hooo.trans (h.early (hst ▸ he))
      · change Ooo 0 c'.rcv.nxt c'.rx.rxqOoo
        rw [hnxt, hooo]
        exact h.ooo (hst ▸ he)
      · exact absurd (hex'.symm.trans he) (by simp)
      · exact absurd hu (by simp [hnone])
      · exact absurd hu (by simp [hnone])
      · change c'.rxSide.load ≤ tcpWin
        omega
      · exact absurd (hnone u) (by rw [hu]; simp [Proc.holdsRx])
      · exact absurd (hnone u) (by rw [hu]; simp [Proc.holdsRx])
  | true =>
      obtain ⟨hlen, m, rest, hrest, h₁, h₂⟩ := hspec.inside hpart
      rw [if_neg (by omega)]
      rw [if_neg (by omega)] at hother hself
      rw [hpart] at hex' hother hself
      have honly : ∀ u, ((s.move c' t (.readCopy len p.q true)).procs u).holdsRx → u = t := by
        intro u hu
        by_contra hne
        rw [hother u hne, h.not_holds hex u] at hu
        cases hu
      refine ⟨fun he => ?_, fun he => ?_, fun _ => ⟨t, by rw [hself]; rfl⟩, fun u v hu hv => ?_,
        fun _ _ => hex', fun he => ?_, fun u bytes hu => ?_, fun u l q hu => ?_⟩
      · exact hooo.trans (h.early (hst ▸ he))
      · change Ooo 0 c'.rcv.nxt c'.rx.rxqOoo
        rw [hnxt, hooo]
        exact h.ooo (hst ▸ he)
      · rw [honly u hu, honly v hv]
      · exact absurd (hex'.symm.trans he) (by simp)
      · obtain rfl := honly u (by rw [hu]; rfl)
        rw [hself] at hu
        cases hu
      · obtain rfl := honly u (by rw [hu]; rfl)
        rw [hself] at hu
        cases hu
        refine ⟨m, rest, hrxq.trans hrest, by omega, by omega, ?_⟩
        change c'.rxSide.load ≤ _
        omega

/-- The copy out of a buffer that is read in part does not fault. -/
theorem readCopy_eq (h : s.RxInv) {t : Tid} {len : ℕ} {q : List Mbuf}
    (hp : s.procs t = .readCopy len q true) :
    ∃ m m' rest, s.conn.rx.rxq = m :: rest ∧ m'.len + (len - rxBytes q) = m.len ∧
      m'.data = m.data.drop (len - rxBytes q) ∧ m'.flags = m.flags ∧
      tcpReadCopy s.conn len q true =
        .ok ({ s.conn with rx := { s.conn.rx with rxq := m' :: rest } },
          (q.map Mbuf.data).flatten ++ m.data.take (len - rxBytes q)) := by
  obtain ⟨m, rest, hq, h₁, h₂, -⟩ := h.part t len q hp
  obtain ⟨m', he, hb, ho, hl, -, -, hf⟩ := mbufPull_eq (m := m) (n := len - rxBytes q) (by omega)
  refine ⟨m, { m' with segSeq := m'.segSeq + BitVec.ofNat 32 (len - rxBytes q) }, rest, hq, ?_, ?_,
    hf, ?_⟩
  · dsimp only
    omega
  · simp only [Mbuf.data, hb, ho, hl, List.drop_take, List.drop_drop]
  · rw [tcpReadCopy, if_pos rfl, hq]
    dsimp only
    rw [length_flatten_data, he]
    rfl

theorem copyPart (h : s.RxInv) {t : Tid} {len : ℕ} {q : List Mbuf} {c' : Conn} {bytes : List Byte}
    (hp : s.procs t = .readCopy len q true)
    (hc : tcpReadCopy s.conn len q true = .ok (c', bytes)) :
    (s.move c' t (.readFinish bytes)).RxInv := by
  obtain ⟨m, m', rest, hq, hlen, -, -, he⟩ := h.readCopy_eq hp
  obtain ⟨m₁, rest₁, hq₁, h₁, h₂, h₃⟩ := h.part t len q hp
  rw [hq] at hq₁
  cases hq₁
  rw [he] at hc
  cases hc
  have hex : s.conn.rx.exclusive = true := h.holder t (by rw [hp]; rfl)
  have honly : ∀ {c : Conn} {b : List Byte} (u : Tid),
      ((s.move c t (.readFinish b)).procs u).holdsRx → u = t := by
    intro c b u hu
    by_contra hne
    rw [Sys.procs_move_of_ne _ _ _ hne] at hu
    exact hne (h.unique u t hu (by rw [hp]; rfl))
  refine ⟨h.early, h.ooo, fun _ => ⟨t, by simp [Proc.holdsRx]⟩, fun u v hu hv => ?_,
    fun _ _ => hex, fun he => absurd (hex.symm.trans he) (by simp), fun u b _ => ?_,
    fun u l q' hu => ?_⟩
  · rw [honly u hu, honly v hv]
  · have hload : s.conn.rxSide.load = s.conn.rcv.wnd.toNat + (m.len + rxBytes rest) := by
      change s.conn.rcv.wnd.toNat + rxBytes s.conn.rx.rxq = _
      rw [hq, rxBytes_cons]
    change s.conn.rcv.wnd.toNat + rxBytes (m' :: rest) ≤ tcpWin
    rw [rxBytes_cons]
    omega
  · obtain rfl := honly u (by rw [hu]; rfl)
    simp at hu

theorem finish (h : s.RxInv) {t : Tid} {bytes : List Byte} {r : ℤ}
    (hp : s.procs t = .readFinish bytes) :
    (s.move (tcpReadFinish s.conn) t (.done r bytes)).RxInv := by
  have hnone : ∀ u, ((s.move (tcpReadFinish s.conn) t (.done r bytes)).procs u).holdsRx = false := by
    intro u
    by_cases hu : u = t
    · subst hu
      simp [Proc.holdsRx]
    · rw [Sys.procs_move_of_ne _ _ _ hu]
      cases hh : (s.procs u).holdsRx with
      | false => rfl
      | true => exact absurd (h.unique u t hh (by rw [hp]; rfl)) hu
  refine ⟨h.early, h.ooo, fun he => absurd he (by simp [tcpReadFinish]),
    fun u v hu _ => ?_, fun u hu => ?_, fun _ => h.stripped t bytes hp, fun u b hu => ?_,
    fun u l q hu => ?_⟩
  · exact absurd hu (by simp [hnone])
  · exact absurd hu (by simp [hnone])
  · exact absurd (hnone u) (by rw [hu]; simp [Proc.holdsRx])
  · exact absurd (hnone u) (by rw [hu]; simp [Proc.holdsRx])

end Sys.RxInv

theorem RxSide.load_failed (x : RxSide) (err : ℤ) : (x.failed err).load ≤ x.load := by
  simp only [RxSide.load, RxSide.failed]
  split
  · exact le_refl _
  · simp

/-- What a segment does to the account and the owners. -/
theorem RxEffect.load_le {s : Segment} {c c' : Conn} (h : RxEffect s c c') :
    c'.rxSide.load ≤ c.rxSide.load ∧ c'.rx.exclusive = c.rx.exclusive ∧
      (c.rx.exclusive → c.rx.rxq <+: c'.rx.rxq) := by
  cases h with
  | quiet hside _ =>
      have hrx : c'.rx = c.rx := congrArg RxSide.rx hside
      rw [hside, hrx]
      exact ⟨le_refl _, rfl, fun _ => ⟨[], by simp⟩⟩
  | syn _ _ hside =>
      have hrx : c'.rx = c.rx := congrArg RxSide.rx hside
      rw [hside, hrx]
      exact ⟨le_refl _, rfl, fun _ => ⟨[], by simp⟩⟩
  | reset _ hside =>
      have hrx : c'.rx = (c.rxSide.failed eConnReset).rx := congrArg RxSide.rx hside
      rw [hside, hrx]
      refine ⟨RxSide.load_failed _ _, rfl, fun he => ⟨[], ?_⟩⟩
      simp [RxSide.failed, he]
  | @text st x used wake _ _ _ _ hx _ hside _ =>
      obtain ⟨h₁, h₂, h₃⟩ := hx.load_le
      have hrx : c'.rx = (x.woken wake).rx := congrArg RxSide.rx hside
      rw [hside, hrx]
      exact ⟨h₁, h₃, fun _ => h₂⟩

/-- **Every step keeps the invariant.** -/
theorem sysStep_rxInv {s s' : Sys} {e : Event} (h : s.RxInv) (hstep : sysStep s e = .ok s') :
    s'.RxInv := by
  cases sysStep_rxMove h.rxOk hstep with
  | inert hside hmove hr =>
      have hrx : s'.conn.rx = s.conn.rx := congrArg RxSide.rx hside
      have hrcv : s'.conn.rcv = s.conn.rcv := congrArg RxSide.rcv hside
      obtain ⟨h₁, h₂⟩ := hmove.keeps
      exact h.of_keep hr.holders (by rw [hrx]) (by rw [hside]) (fun _ => ⟨[], by simp [hrx]⟩)
        (fun he => by rw [hrx]; exact h.early (h₁ he))
        (fun he => by rw [hrx, hrcv]; exact h.ooo (h₂ he))
  | shut _ hside hmove hr =>
      obtain ⟨hrcv, hrxq, hooo, -, hex⟩ := RxSide.shut_keeps hside
      obtain ⟨h₁, h₂⟩ := hmove.keeps
      refine h.of_keep hr.holders hex ?_ (fun _ => ⟨[], by simp [hrxq]⟩)
        (fun he => by rw [hooo]; exact h.early (h₁ he))
        (fun he => by rw [hooo, hrcv]; exact h.ooo (h₂ he))
      change s'.conn.rcv.wnd.toNat + rxBytes s'.conn.rx.rxq ≤ _
      rw [hrcv, hrxq]
      exact le_refl _
  | @fail _ _ err hside hst hr _ =>
      have hrx : s'.conn.rx = (s.conn.rxSide.failed err).rx := congrArg RxSide.rx hside
      have hooo : s'.conn.rx.rxqOoo = [] := by rw [hrx]; rfl
      refine h.of_keep hr.holders (by rw [hrx]; rfl) (by rw [hside]; exact RxSide.load_failed _ _)
        (fun he => ⟨[], ?_⟩) (fun _ => hooo) (fun _ => by rw [hooo]; exact Ooo.nil _ _)
      rw [hrx]
      simp [RxSide.failed, he]
  | segment _ _ heff hprocs =>
      obtain ⟨h₁, h₂, h₃⟩ := heff.load_le
      obtain ⟨h₄, h₅⟩ := heff.ooo h.rxOk
      exact h.of_keep (fun t => .inl (congrFun hprocs t)) h₂ h₁ h₃ h₄ h₅
  | @start t len hfree =>
      refine h.of_keep (holders_move ?_ rfl) rfl (le_refl _) (fun _ => ⟨[], by simp⟩)
        h.early h.ooo
      rw [Sys.free] at hfree
      split at hfree <;> simp_all [Proc.holdsRx]
  | sleep =>
      exact h.of_keep (fun _ => .inl rfl) rfl (le_refl _) (fun _ => ⟨[], by simp⟩) h.early h.ooo
  | closed _ hp _ =>
      exact h.of_keep (holders_move (by rw [hp]; rfl) rfl) rfl (le_refl _)
        (fun _ => ⟨[], by simp⟩) h.early h.ooo
  | pop _ _ _ hex _ hpop hside hst =>
      subst hpop
      exact h.pop hex hside hst
  | copy _ hp _ =>
      exact h.of_keep (holders_move (by rw [hp]; rfl) rfl) rfl (le_refl _)
        (fun _ => ⟨[], by simp⟩) h.early h.ooo
  | copyPart _ hp hc => exact h.copyPart hp hc
  | finish _ hp => exact h.finish hp

/-! ## Runs -/

theorem Sys.RxInv.ofConn {c : Conn} (hq : c.rx.rxq = []) (ho : c.rx.rxqOoo = [])
    (hex : c.rx.exclusive = false) (hw : c.rcv.wnd.toNat ≤ tcpWin) : (Sys.ofConn c).RxInv := by
  have hload : (Sys.ofConn c).conn.rxSide.load ≤ tcpWin := by
    change c.rcv.wnd.toNat + rxBytes c.rx.rxq ≤ tcpWin
    simpa [hq] using hw
  have hnone : ∀ t, ((Sys.ofConn c).procs t).holdsRx = false := fun _ => rfl
  refine ⟨fun _ => ho, fun _ => ?_, fun he => absurd (hex.symm.trans he) (by simp),
    fun t u ht _ => absurd ht (by simp [hnone]), fun t ht => absurd ht (by simp [hnone]),
    fun _ => hload, fun t b ht => ?_, fun t l q ht => ?_⟩
  · change Ooo 0 c.rcv.nxt c.rx.rxqOoo
    rw [ho]
    exact Ooo.nil _ _
  · exact absurd (hnone t) (by rw [ht]; simp [Proc.holdsRx])
  · exact absurd (hnone t) (by rw [ht]; simp [Proc.holdsRx])

/-- The receive side of a new connection. -/
theorem Sys.Start.fresh {s : Sys} (h : s.Start) : ∃ c, s = Sys.ofConn c ∧ c.rx = (tcpConnAlloc 0).rx ∧
    c.rcv.wnd = BitVec.ofNat 32 tcpWin ∧ c.err = 0 ∧ c.state < .established ∧
    (c.state = .synSent ∨ c.rcv.nxt = c.rcv.irs + 1) := by
  cases h with
  | @dial iss io c h =>
      refine ⟨c, rfl, ?_⟩
      have h₁ := (SameRx.refl (tcpConnAlloc iss)).tcpTxCtl { syn := true } io
      rw [tcpDialStart] at h
      generalize tcpTxCtl (tcpConnAlloc iss) { syn := true } io = r at h h₁
      obtain ⟨c₁, ret⟩ := r
      dsimp only at h h₁
      split at h
      · cases h
        contradiction
      · obtain ⟨c₂, h₂, h⟩ := bind_eq_ok.mp h
        cases h
        obtain ⟨hside, hst⟩ := tcpConnSetState_spec h₂
        have hside' : c.rxSide = (tcpConnAlloc iss).rxSide := hside.trans h₁.side
        exact ⟨congrArg RxSide.rx hside', congrArg (fun x : RxSide => x.rcv.wnd) hside',
          congrArg RxSide.err hside', by rw [hst]; decide, .inl hst⟩
  | @listen iss f io c h =>
      refine ⟨c, rfl, ?_⟩
      rw [tcpRxListener] at h
      split at h
      · cases h
      split at h
      · cases h
      dsimp only at h
      generalize hc₀ : ({ tcpConnAlloc iss with rcv := _ } : Conn) = c₀ at h
      have h₁ := (SameRx.refl c₀).tcpTxCtl { syn := true, ack := true } io
      generalize tcpTxCtl c₀ { syn := true, ack := true } io = r at h h₁
      obtain ⟨c₁, ret⟩ := r
      dsimp only at h h₁
      split at h
      · cases h
      · obtain ⟨c₂, h₂, h⟩ := bind_eq_ok.mp h
        cases h
        obtain ⟨hside, hst⟩ := tcpConnSetState_spec h₂
        have hside' : c.rxSide = c₀.rxSide := hside.trans h₁.side
        subst hc₀
        refine ⟨congrArg RxSide.rx hside', congrArg (fun x : RxSide => x.rcv.wnd) hside',
          congrArg RxSide.err hside', by rw [hst]; decide, .inr ?_⟩
        have hrcv : c.rcv = _ := congrArg RxSide.rcv hside'
        rw [hrcv]
        rfl

theorem Sys.Start.rxq_nil {s : Sys} (h : s.Start) : s.conn.rx.rxq = [] := by
  obtain ⟨c, rfl, hrx, -⟩ := h.fresh
  change c.rx.rxq = []
  rw [hrx]
  rfl

theorem Sys.Start.rxInv {s : Sys} (h : s.Start) : s.RxInv := by
  obtain ⟨c, rfl, hrx, hwnd, -⟩ := h.fresh
  refine RxInv.ofConn ?_ ?_ ?_ ?_
  all_goals first | rw [hrx]; rfl | rw [hwnd]; exact le_refl _

/-- The invariant holds in every state of every run. -/
theorem rxInv_of_reach {s₀ s : Sys} {es : List Event} (h₀ : s₀.Start)
    (h : exec sysStep s₀ es = .ok s) : s.RxInv :=
  exec_invariant (G := fun _ _ => True) (fun _ _ _ hs _ hstep => sysStep_rxInv hs hstep) h₀.rxInv
    (Along.trivial _ _) h

/-- **The ingress path never faults.**  In every state a connection can reach, by
any interleaving of calls, segments and timers, every frame is processed without
violating an assertion or a `BUG_ON`. -/
theorem runRx_never_faults {s₀ s : Sys} {es : List Event} (h₀ : s₀.Start)
    (h : exec sysStep s₀ es = .ok s) (f : Frame) (sndNxt : Seq) (io : Io) :
    ∃ s', runRx s f sndNxt io = .ok s' := by
  obtain ⟨s', hs', -⟩ := runRx_spec (rxInv_of_reach h₀ h).rxOk f sndNxt io
  exact ⟨s', hs'⟩

/-- A connection with a sleeping reader takes data out of order, and then a
segment with a FIN that overlaps it. -/
theorem runRx_never_faults_overlap :
    ∃ s, exec sysStep accepted [.rx (peerFrame 3 { ack := true } [7, 8]) 1 (Io.good 0),
        .call 0 (.read 1), .run 0 (Io.good 0)] = .ok s ∧
      ∃ s', runRx s (peerFrame 1 { ack := true, fin := true } [5, 6, 7]) 1 (Io.good 0) = .ok s' :=
  ⟨_, exec_final (by decide),
    runRx_never_faults accepted_start (exec_final (by decide)) _ _ _⟩

end Skyloft
