import Skyloft.Lib.Slice
import Skyloft.Net.Reads

/-!
# Vectored reads

`tcp_readv` and `tcp_read` share `tcp_read_wait` and differ in how they copy.  Both are taken here
as calls that nothing else interrupts, so that their results can be compared.

`iov i` is what memory holds at the place of `iov[i]`, also past the end of the array; a call
records the indices that it reads.  The assertions are checked, as in a build with `DEBUG`.

* `tcpRead`, `tcpReadv` — the two calls.
* `SameResult` — equal counts, equal bytes, and an equal rest of the connection.
* `tcp_readv_agrees_iff` — `tcp_readv` agrees with `tcp_read` exactly when it is given no vector.
* `tcp_readv_same_result_iff` — its copy loops are wrong as well, unless the read ends inside the
  first buffer.
-/

namespace Skyloft

open Run Slice

/-! ## The calls -/

/-- A `struct iovec`. -/
structure Iovec where
  base : ℕ
  len : BitVec 64

/-- How a `tcp_readv` crashes. -/
inductive ReadvFault
  /-- `mbuf_length(NULL)`. -/
  | nullMbuf
  /-- `assert(i <= iovcnt)`. -/
  | index
  /-- `assert(mbuf_length(m) > 0)`. -/
  | drained
  | mbuf (f : Fault)
  /-- A loop does not end.  See `drainMbuf_spec`. -/
  | spin
  deriving DecidableEq

/-- The end of a `tcp_read`, or the task sleeps when there is no return value.  `buf` is what the
buffer then holds. -/
structure ReadEnd where
  conn : Conn
  buf : List Byte
  ret : Option ℤ

/-- `tcp_read` into a buffer with the content `buf`. -/
def tcpRead (c : Conn) (tid : Tid) (buf : List Byte) (io : Io) : Except Fault ReadEnd :=
  match tcpReadWait c tid buf.length io with
  | (c, .sleep) => .ok ⟨c, buf, none⟩
  | (c, .closed ret) => .ok ⟨c, buf, some ret⟩
  | (c, .ready n q part) =>
      if n = 0 then .ok ⟨c, buf, some 0⟩
      else do
        let (c, bytes) ← tcpReadCopy c buf.length q part
        return ⟨if part then tcpReadFinish c else c, bytes ++ buf.drop bytes.length, some n⟩

/-- `iov_len`, with the indices that it reads. -/
def iovLen (iov : ℕ → Iovec) (iovcnt : ℕ) : BitVec 64 × List ℕ :=
  (List.range iovcnt).foldl
    (fun (len, reads) _ => (len + (iov iovcnt).len, reads ++ [iovcnt])) (0, [])

/-- The variables of the copy loops of `tcp_readv`. -/
structure Cursor where
  mem : ℕ → Byte
  i : ℕ
  offset : ℕ
  m : Mbuf
  reads : List ℕ

section

variable (iov : ℕ → Iovec) (iovcnt : ℕ)

/-- `cpylen` in both copy loops. -/
def Cursor.cpylen (s : Cursor) : ℕ := min ((iov s.i).len.toNat - s.offset) s.m.len

/-- The body of both copy loops: the copy to `iov[i]`, and the step to the next vector. -/
def copyVec (s : Cursor) : Except ReadvFault Cursor :=
  match mbufPull s.m (s.cpylen iov) with
  | .error f => .error (.mbuf f)
  | .ok m =>
      let offset := s.offset + s.cpylen iov
      let full := offset = (iov s.i).len.toNat
      .ok {
        mem := store s.mem ((iov s.i).base + s.offset) (s.m.data.take (s.cpylen iov))
        i := if full then s.i + 1 else s.i
        offset := if full then 0 else offset
        m := m
        reads := s.reads ++ [s.i] }

/-- The first copy loop, which runs for each buffer of `q`.  It takes the bytes from `m`. -/
def drainMbuf : ℕ → Cursor → Except ReadvFault Cursor
  | 0, _ => .error .spin
  | fuel + 1, s =>
      match copyVec iov s with
      | .error f => .error f
      | .ok s =>
          if iovcnt < s.i then .error .index
          else if 0 < s.m.len then drainMbuf fuel s
          else .ok s

/-- The second copy loop, for a buffer that is read in part. -/
def drainPart : ℕ → Cursor → Except ReadvFault Cursor
  | 0, _ => .error .spin
  | fuel + 1, s =>
      match copyVec iov s with
      | .error f => .error f
      | .ok s' =>
          let seq := s'.m.segSeq + BitVec.ofNat 32 (s.cpylen iov)
          let s' := { s' with m := { s'.m with segSeq := seq } }
          if s'.m.len = 0 then .error .drained
          else if s'.i < iovcnt then drainPart fuel s'
          else .ok s'

/-- `drainMbuf` for all of `q`. -/
def drainAll : List Mbuf → Cursor → Except ReadvFault Cursor
  | [], s => .ok s
  | _ :: q, s => do
      let s ← drainMbuf iov iovcnt (iovcnt + 1) s
      drainAll q s

end

/-- The end of a `tcp_readv`, with the memory it leaves. -/
structure ReadvEnd where
  conn : Conn
  mem : ℕ → Byte
  ret : Option ℤ
  reads : List ℕ

/-- The copy of `tcp_readv`.  Without a buffer that is read in part, `m` is `NULL`. -/
def tcpReadvCopy (c : Conn) (mem : ℕ → Byte) (iov : ℕ → Iovec) (iovcnt : ℕ) (q : List Mbuf)
    (part : Bool) : Except ReadvFault (Conn × (ℕ → Byte) × List ℕ) :=
  match part, c.rx.rxq with
  | true, m :: rest => do
      let s ← drainAll iov iovcnt q ⟨mem, 0, 0, m, []⟩
      let s ← drainPart iov iovcnt (iovcnt + 1) s
      return ({ c with rx := { c.rx with rxq := s.m :: rest } }, s.mem, s.reads)
  | _, _ => if q = [] then .ok (c, mem, []) else .error .nullMbuf

def tcpReadv (c : Conn) (tid : Tid) (mem : ℕ → Byte) (iov : ℕ → Iovec) (iovcnt : ℕ) (io : Io) :
    Except ReadvFault ReadvEnd :=
  let l := iovLen iov iovcnt
  match tcpReadWait c tid l.1.toNat io with
  | (c, .sleep) => .ok ⟨c, mem, none, l.2⟩
  | (c, .closed ret) => .ok ⟨c, mem, some ret, l.2⟩
  | (c, .ready n q part) =>
      if n = 0 then .ok ⟨c, mem, some 0, l.2⟩
      else do
        let (c, mem, copied) ← tcpReadvCopy c mem iov iovcnt q part
        return ⟨if part then tcpReadFinish c else c, mem, some n, l.2 ++ copied⟩

/-! ## Agreement -/

/-- The bytes in the vectors, one vector after the other. -/
def gathered (mem : ℕ → Byte) (vs : List Iovec) : List Byte :=
  vs.flatMap fun v => slice mem v.base v.len.toNat

/-- The total length of the vectors. -/
def iovTotal (vs : List Iovec) : ℕ := (vs.map fun v => v.len.toNat).sum

/-- `tcp_readv` into `vs` ended as `tcp_read` into one buffer. -/
structure SameResult (vs : List Iovec) (v : ReadvEnd) (r : ReadEnd) : Prop where
  ret : v.ret = r.ret
  data : gathered v.mem vs = r.buf
  rxq : v.conn.rx.rxq = r.conn.rx.rxq
  wnd : v.conn.rcv.wnd = r.conn.rcv.wnd

section

variable (c : Conn) (tid : Tid) (mem : ℕ → Byte) (iov : ℕ → Iovec) (iovcnt : ℕ) (io : Io)

/-- Both calls return and have the same result, where the buffer of `tcp_read` starts out with the
bytes that the vectors hold. -/
def ReadvSame : Prop :=
  ∃ v r, tcpReadv c tid mem iov iovcnt io = .ok v ∧
    tcpRead c tid (gathered mem (slice iov 0 iovcnt)) io = .ok r ∧
    SameResult (slice iov 0 iovcnt) v r

/-- Moreover `tcp_readv` stays within the array. -/
def ReadvAgrees : Prop :=
  ∃ v r, tcpReadv c tid mem iov iovcnt io = .ok v ∧
    tcpRead c tid (gathered mem (slice iov 0 iovcnt)) io = .ok r ∧
    SameResult (slice iov 0 iovcnt) v r ∧ ∀ k ∈ v.reads, k < iovcnt

end

@[simp] theorem length_gathered (mem : ℕ → Byte) (vs : List Iovec) :
    (gathered mem vs).length = iovTotal vs := by
  simp [gathered, iovTotal]

/-! ## The length -/

/-- `iov_len` reads the element past the array once for each vector. -/
theorem iovLen_eq (iov : ℕ → Iovec) (iovcnt : ℕ) :
    iovLen iov iovcnt =
      (BitVec.ofNat 64 iovcnt * (iov iovcnt).len, List.replicate iovcnt iovcnt) := by
  have hfold : ∀ (l : List ℕ) (len : BitVec 64) (reads : List ℕ),
      l.foldl (fun (len, reads) _ => (len + (iov iovcnt).len, reads ++ [iovcnt])) (len, reads) =
        (len + BitVec.ofNat 64 l.length * (iov iovcnt).len,
          reads ++ List.replicate l.length iovcnt) := by
    intro l
    induction l with
    | nil => simp
    | cons x l ih =>
        intro len reads
        rw [List.foldl_cons, ih, List.length_cons, List.replicate_succ, Prod.mk.injEq]
        constructor
        · rw [BitVec.ofNat_add, BitVec.add_mul, BitVec.add_assoc, BitVec.add_comm (_ * _)]
          simp
        · simp
  rw [iovLen, hfold, List.length_range]
  simp

/-- Whatever the copy loops read comes on top. -/
theorem tcpReadv_reads {c : Conn} {tid : Tid} {mem : ℕ → Byte} {iov : ℕ → Iovec} {iovcnt : ℕ}
    {io : Io} {v : ReadvEnd} (h : tcpReadv c tid mem iov iovcnt io = .ok v) :
    ∃ copied, v.reads = List.replicate iovcnt iovcnt ++ copied := by
  rw [tcpReadv, iovLen_eq] at h
  dsimp only at h
  split at h
  · cases h
    exact ⟨[], by simp⟩
  · cases h
    exact ⟨[], by simp⟩
  · split at h
    · cases h
      exact ⟨[], by simp⟩
    · obtain ⟨⟨c', mem', copied⟩, -, h⟩ := bind_eq_ok.mp h
      cases h
      exact ⟨copied, rfl⟩

/-- A `tcp_read_wait` that does not sleep and finds the receive side open pops from `rxq`. -/
theorem tcpReadWait_ready {c c' : Conn} {tid : Tid} {len : ℕ} {io : Io} {n : ℕ} {q : List Mbuf}
    {part : Bool} (h : tcpReadWait c tid len io = (c', .ready n q part)) :
    (c.rx.closed = false ∧ c.rx.exclusive = false ∧ c.rx.rxq ≠ []) ∧
      ∃ p, p = readPop len 0 c.rx.rxq ∧ n = p.readlen ∧ q = p.q ∧ part = p.part ∧
        c'.rx.rxq = p.rest := by
  rw [tcpReadWait] at h
  split_ifs at h with hsleep hclosed
  · cases (Prod.mk.inj h).2
  · cases (Prod.mk.inj h).2
  · cases h
    rw [Bool.not_eq_true] at hclosed
    simp only [hclosed, true_and, not_or, Bool.not_eq_true] at hsleep
    have hside := (readWndUpdate_readTake (readPop len 0 c.rx.rxq) io hclosed).1
    exact ⟨⟨hclosed, hsleep⟩, _, rfl, rfl, rfl, rfl, congrArg (fun x => x.rx.rxq) hside⟩

/-- A call of length 0 has nothing to copy. -/
theorem readPop_zero (q : List Mbuf) : (readPop 0 0 q).readlen = 0 := by
  cases q <;> simp [readPop]

/-- **`tcp_readv` agrees with `tcp_read`** and stays within the array exactly when the array has no
vector. -/
theorem tcp_readv_agrees_iff (c : Conn) (tid : Tid) (mem : ℕ → Byte) (iov : ℕ → Iovec)
    (iovcnt : ℕ) (io : Io) : ReadvAgrees c tid mem iov iovcnt io ↔ iovcnt = 0 := by
  constructor
  · rintro ⟨v, r, hv, -, -, hreads⟩
    obtain ⟨copied, hlog⟩ := tcpReadv_reads hv
    by_contra hne
    -- the first turn of `iov_len` is already past the array
    have hmem : iovcnt ∈ v.reads := by
      rw [hlog, List.mem_append, List.mem_replicate]
      exact .inl ⟨hne, rfl⟩
    exact absurd (hreads iovcnt hmem) (lt_irrefl _)
  · intro hzero
    subst hzero
    rw [ReadvAgrees, slice_zero]
    have hlen : (BitVec.ofNat 64 0 * (iov 0).len).toNat = 0 := by simp
    simp only [tcpReadv, iovLen_eq, tcpRead, gathered, List.flatMap_nil, List.length_nil, hlen]
    rcases hw : tcpReadWait c tid 0 io with ⟨c', _ | ret | ⟨n, q, part⟩⟩
    · exact ⟨_, _, rfl, rfl, ⟨rfl, rfl, rfl, rfl⟩, by simp⟩
    · exact ⟨_, _, rfl, rfl, ⟨rfl, rfl, rfl, rfl⟩, by simp⟩
    · obtain ⟨-, p, hp, hn, -⟩ := tcpReadWait_ready hw
      rw [hp, readPop_zero] at hn
      simp only [hn, if_true]
      exact ⟨_, _, rfl, rfl, ⟨rfl, rfl, rfl, rfl⟩, by simp⟩

/-- A connection on which one byte waits to be read. -/
def byteReady : Sys :=
  final sysStep accepted [.rx (windowFrame 1000) 1 (Io.good 0),
    .rx (peerFrame 1 { ack := true } [42]) 1 (Io.good 1)]

/-- One vector of one byte, and another one past the array. -/
def byteVec (i : ℕ) : Iovec := ⟨8 * i, 1⟩

/-- `tcp_readv` of one byte reads past the array, where the length happens to be right, and then
crashes; `tcp_read` returns the byte. -/
theorem tcp_readv_not_agrees : accepted.Start ∧
    exec sysStep accepted [.rx (windowFrame 1000) 1 (Io.good 0),
      .rx (peerFrame 1 { ack := true } [42]) 1 (Io.good 1)] = .ok byteReady ∧
    (tcpRead byteReady.conn 0 [0] (Io.good 2)).toOption.map (fun r => (r.ret, r.buf)) =
      some (some 1, [42]) ∧
    iovLen byteVec 1 = (1, [1]) ∧
    tcpReadv byteReady.conn 0 (fun _ => 0) byteVec 1 (Io.good 2) = .error .nullMbuf ∧
    ¬ ReadvAgrees byteReady.conn 0 (fun _ => 0) byteVec 1 (Io.good 2) := by
  have hcrash :
      tcpReadv byteReady.conn 0 (fun _ => 0) byteVec 1 (Io.good 2) = .error .nullMbuf := rfl
  refine ⟨accepted_start, exec_final (by decide), by decide, by decide, hcrash, ?_⟩
  rintro ⟨v, r, hv, -⟩
  rw [hcrash] at hv
  cases hv

/-! ## The copy loops -/

theorem Mbuf.inBuf_consume (m : Mbuf) {k : ℕ} (h : k ≤ m.len) :
    m.off + k + (m.len - k) ≤ m.buf.length := by
  have := m.inBuf
  omega

/-- What is left of a buffer of which `k` bytes were read. -/
def Mbuf.consume (m : Mbuf) (k : ℕ) (h : k ≤ m.len) : Mbuf :=
  { m with
    off := m.off + k
    len := m.len - k
    segSeq := m.segSeq + BitVec.ofNat 32 k
    inBuf := m.inBuf_consume h }

theorem Mbuf.consume_consume (m : Mbuf) {j k : ℕ} (hj : j ≤ m.len)
    (hk : k ≤ (m.consume j hj).len) (h : j + k ≤ m.len) :
    (m.consume j hj).consume k hk = m.consume (j + k) h := by
  simp only [Mbuf.consume, Mbuf.mk.injEq, true_and, and_true]
  refine ⟨Nat.add_assoc _ _ _, Nat.sub_sub _ _ _, ?_⟩
  rw [BitVec.ofNat_add, BitVec.add_assoc]

theorem Mbuf.data_consume (m : Mbuf) {k : ℕ} (h : k ≤ m.len) :
    (m.consume k h).data = m.data.drop k := by
  rw [Mbuf.data, Mbuf.data, List.drop_take, List.drop_drop]
  rfl

/-- The vectors do not overlap. -/
def Iovec.Apart (v w : Iovec) : Prop :=
  v.base + v.len.toNat ≤ w.base ∨ w.base + w.len.toNat ≤ v.base

theorem Iovec.Apart.symm {v w : Iovec} (h : v.Apart w) : w.Apart v := Or.symm h

section

variable {iov : ℕ → Iovec} {iovcnt : ℕ}

/-- The cursor after a vector that the buffer fills. -/
def Cursor.next (iov : ℕ → Iovec) (s : Cursor) (h : (iov s.i).len.toNat ≤ s.m.len) : Cursor where
  mem := store s.mem (iov s.i).base (s.m.data.take (iov s.i).len.toNat)
  i := s.i + 1
  offset := 0
  m := s.m.consume (iov s.i).len.toNat h
  reads := s.reads ++ [s.i]

/-- One turn of the second loop, when the buffer has more than the vector takes. -/
theorem drainPart_succ {s : Cursor} (fuel : ℕ) (hoff : s.offset = 0)
    (h : (iov s.i).len.toNat < s.m.len) :
    drainPart iov iovcnt (fuel + 1) s =
      if s.i + 1 < iovcnt then drainPart iov iovcnt fuel (s.next iov h.le)
      else .ok (s.next iov h.le) := by
  have hcpy : s.cpylen iov = (iov s.i).len.toNat := by
    rw [Cursor.cpylen, hoff, Nat.sub_zero, min_eq_left h.le]
  have hleft : s.m.len - (iov s.i).len.toNat ≠ 0 := by omega
  simp only [drainPart, copyVec, mbufPull, hcpy, h.le, dif_pos, hoff, Nat.zero_add, Nat.add_zero,
    if_true, hleft, if_false]
  rfl

/-- The bytes of `m` were copied to the vectors `vs`, and nowhere else. -/
structure Scattered (vs : List Iovec) (s s' : Cursor) : Prop where
  data : gathered s'.mem vs = s.m.data.take (iovTotal vs)
  frame : ∀ v : Iovec, (∀ w ∈ vs, v.Apart w) →
    slice s'.mem v.base v.len.toNat = slice s.mem v.base v.len.toNat
  m : ∃ h, s'.m = s.m.consume (iovTotal vs) h

theorem Scattered.nil (s : Cursor) : Scattered [] s s where
  data := rfl
  frame _ _ := rfl
  m := ⟨Nat.zero_le _, by simp [iovTotal, Mbuf.consume]⟩

/-- The next vector, and then the others. -/
theorem Scattered.cons {vs : List Iovec} {s s' : Cursor} (h : (iov s.i).len.toNat ≤ s.m.len)
    (hapart : ∀ w ∈ vs, (iov s.i).Apart w) (hs : Scattered vs (s.next iov h) s') :
    Scattered (iov s.i :: vs) s s' where
  data := by
    have hlen : (s.m.data.take (iov s.i).len.toNat).length = (iov s.i).len.toNat := by
      rw [List.length_take, Mbuf.length_data, min_eq_left h]
    have hfirst : slice s'.mem (iov s.i).base (iov s.i).len.toNat =
        s.m.data.take (iov s.i).len.toNat := by
      rw [hs.frame _ hapart]
      nth_rewrite 1 [← hlen]
      exact slice_store_self _ _ _
    have hrest : gathered s'.mem vs = (s.m.data.drop (iov s.i).len.toNat).take (iovTotal vs) := by
      rw [hs.data]
      exact congrArg _ (s.m.data_consume h)
    calc gathered s'.mem (iov s.i :: vs)
        = slice s'.mem (iov s.i).base (iov s.i).len.toNat ++ gathered s'.mem vs := rfl
      _ = s.m.data.take ((iov s.i).len.toNat + iovTotal vs) := by
          rw [hfirst, hrest, List.take_add]
  frame := by
    intro v hv
    rw [hs.frame v fun w hw => hv w (List.mem_cons_of_mem _ hw)]
    apply slice_store_of_disjoint
    have := hv _ (List.mem_cons_self ..)
    rw [Iovec.Apart] at this
    rw [List.length_take, Mbuf.length_data, min_eq_left h]
    exact this
  m := by
    obtain ⟨hle, hm⟩ := hs.m
    have hsum : iovTotal (iov s.i :: vs) ≤ s.m.len := by
      have : iovTotal vs ≤ s.m.len - (iov s.i).len.toNat := hle
      rw [iovTotal, List.map_cons, List.sum_cons, ← iovTotal]
      omega
    refine ⟨hsum, ?_⟩
    rw [hm]
    exact s.m.consume_consume h hle hsum

/-- The second loop, from one vector on. -/
theorem drainPart_spec : ∀ (n fuel : ℕ) (s : Cursor), s.i + (n + 1) = iovcnt → n < fuel →
    s.offset = 0 → iovTotal (slice iov s.i (n + 1)) < s.m.len →
    (slice iov s.i (n + 1)).Pairwise Iovec.Apart →
    ∃ s', drainPart iov iovcnt fuel s = .ok s' ∧ Scattered (slice iov s.i (n + 1)) s s' := by
  intro n
  induction n with
  | zero =>
      intro fuel s hi hfuel hoff htot _
      obtain ⟨fuel, rfl⟩ : ∃ k, fuel = k + 1 := ⟨fuel - 1, by omega⟩
      have hlt : (iov s.i).len.toNat < s.m.len := by simpa [iovTotal, slice_succ] using htot
      rw [drainPart_succ fuel hoff hlt, if_neg (by omega), slice_succ, slice_zero]
      exact ⟨_, rfl, Scattered.cons hlt.le (by simp) (Scattered.nil _)⟩
  | succ n ih =>
      intro fuel s hi hfuel hoff htot hpair
      obtain ⟨fuel, rfl⟩ : ∃ k, fuel = k + 1 := ⟨fuel - 1, by omega⟩
      rw [slice_succ, List.pairwise_cons] at hpair
      have hsum : (iov s.i).len.toNat + iovTotal (slice iov (s.i + 1) (n + 1)) < s.m.len := by
        rw [slice_succ] at htot
        exact htot
      have hlt : (iov s.i).len.toNat < s.m.len := by omega
      have hleft : iovTotal (slice iov (s.i + 1) (n + 1)) < (s.next iov hlt.le).m.len := by
        change _ < s.m.len - _
        omega
      rw [drainPart_succ fuel hoff hlt, if_pos (by omega), slice_succ]
      have hnext : (s.next iov hlt.le).i = s.i + 1 := rfl
      obtain ⟨s', hs', hscat⟩ := ih fuel (s.next iov hlt.le) (by rw [hnext]; omega) (by omega) rfl
        hleft hpair.2
      exact ⟨s', hs', Scattered.cons hlt.le hpair.1 hscat⟩

/-! ### The first loop -/

/-- One turn ends a vector or the buffer. -/
structure Turned (iov : ℕ → Iovec) (s s' : Cursor) : Prop where
  len : s'.m.len ≤ s.m.len
  offset : s'.offset ≤ (iov s'.i).len.toNat
  ends : s'.i = s.i + 1 ∨ s'.i = s.i ∧ s'.m.len = 0

theorem copyVec_spec {s : Cursor} (hoff : s.offset ≤ (iov s.i).len.toNat) :
    ∃ s', copyVec iov s = .ok s' ∧ Turned iov s s' := by
  have hcpy : s.cpylen iov ≤ s.m.len := min_le_right _ _
  have hvec : s.cpylen iov ≤ (iov s.i).len.toNat - s.offset := min_le_left _ _
  rw [copyVec, mbufPull, dif_pos hcpy]
  refine ⟨_, rfl, Nat.sub_le _ _, ?_, ?_⟩
  · dsimp only
    split
    · exact Nat.zero_le _
    · omega
  · dsimp only
    split
    · exact .inl rfl
    · rename_i hfull
      have hmin : s.cpylen iov = s.m.len := by
        rw [Cursor.cpylen] at hfull hvec ⊢
        omega
      exact .inr ⟨rfl, by omega⟩

/-- The first loop ends, in an assertion or with `m` empty. -/
theorem drainMbuf_spec : ∀ (fuel : ℕ) (s : Cursor), s.i ≤ iovcnt → iovcnt < s.i + fuel →
    s.offset ≤ (iov s.i).len.toNat →
    drainMbuf iov iovcnt fuel s = .error .index ∨
      ∃ s', drainMbuf iov iovcnt fuel s = .ok s' ∧ s'.m.len = 0 ∧ s'.i ≤ iovcnt ∧
        s'.offset ≤ (iov s'.i).len.toNat := by
  intro fuel
  induction fuel with
  | zero =>
      intro s hi hfuel
      omega
  | succ fuel ih =>
      intro s hi hfuel hoff
      obtain ⟨s₁, h₁, hturn⟩ := copyVec_spec hoff
      rw [drainMbuf, h₁]
      dsimp only
      split_ifs with hidx hlen
      · exact .inl rfl
      · have hmoved : s₁.i = s.i + 1 := by
          have := hturn.ends
          omega
        exact ih s₁ (by omega) (by omega) hturn.offset
      · exact .inr ⟨s₁, rfl, by omega, by omega, hturn.offset⟩

/-- After whole buffers, `m` is empty. -/
theorem drainAll_spec : ∀ (q : List Mbuf) (s : Cursor), s.i ≤ iovcnt →
    s.offset ≤ (iov s.i).len.toNat → q ≠ [] →
    drainAll iov iovcnt q s = .error .index ∨
      ∃ s', drainAll iov iovcnt q s = .ok s' ∧ s'.m.len = 0 ∧ s'.i ≤ iovcnt ∧
        s'.offset ≤ (iov s'.i).len.toNat := by
  intro q
  induction q with
  | nil => intro s _ _ hne; exact absurd rfl hne
  | cons m q ih =>
      intro s hi hoff _
      rw [drainAll]
      obtain h₁ | ⟨s₁, h₁, hlen, hi₁, hoff₁⟩ := drainMbuf_spec (iovcnt + 1) s hi (by omega) hoff
      · rw [h₁]
        exact .inl rfl
      · rw [h₁]
        change drainAll iov iovcnt q s₁ = .error .index ∨
          ∃ s', drainAll iov iovcnt q s₁ = .ok s' ∧ _
        by_cases hq : q = []
        · subst hq
          exact .inr ⟨s₁, rfl, hlen, hi₁, hoff₁⟩
        · exact ih s₁ hi₁ hoff₁ hq

/-- The second loop does not get past an empty `m`. -/
theorem drainPart_of_len_zero {s : Cursor} (fuel : ℕ) (hoff : s.offset ≤ (iov s.i).len.toNat)
    (h : s.m.len = 0) : drainPart iov iovcnt (fuel + 1) s = .error .drained := by
  obtain ⟨s', hs', hturn⟩ := copyVec_spec hoff
  have hlen : s'.m.len = 0 := by
    have := hturn.len
    omega
  simp [drainPart, hs', hlen]

/-! ### The copy -/

/-- A read that takes a whole buffer crashes in the copy: there is no `m`, or `m` is used up when
its own turn comes. -/
theorem tcpReadvCopy_of_whole (c : Conn) (mem : ℕ → Byte) {q : List Mbuf} (part : Bool)
    (hq : q ≠ []) :
    ∃ f, tcpReadvCopy c mem iov iovcnt q part = .error f ∧
      (f = .nullMbuf ∨ f = .index ∨ f = .drained) := by
  unfold tcpReadvCopy
  split
  · rename_i m rest _
    obtain h | ⟨s, h, hlen, -, hoff⟩ :=
      drainAll_spec q ⟨mem, 0, 0, m, []⟩ (Nat.zero_le iovcnt) (Nat.zero_le (iov 0).len.toNat) hq
    · rw [h]
      exact ⟨_, rfl, .inr (.inl rfl)⟩
    · rw [h]
      change ∃ f, (drainPart iov iovcnt (iovcnt + 1) s >>= fun s => _) = .error f ∧ _
      rw [drainPart_of_len_zero iovcnt hoff hlen]
      exact ⟨_, rfl, .inr (.inr rfl)⟩
  · rw [if_neg hq]
    exact ⟨_, rfl, .inl rfl⟩

/-- A read that ends inside the first buffer copies as `tcp_read` does. -/
theorem tcpReadvCopy_of_part {c : Conn} {m : Mbuf} {rest : List Mbuf} (mem : ℕ → Byte)
    (hrxq : c.rx.rxq = m :: rest) (hpos : 0 < iovcnt)
    (htot : iovTotal (slice iov 0 iovcnt) < m.len)
    (hpair : (slice iov 0 iovcnt).Pairwise Iovec.Apart) :
    ∃ mem' reads bytes c', tcpReadvCopy c mem iov iovcnt [] true = .ok (c', mem', reads) ∧
      tcpReadCopy c (iovTotal (slice iov 0 iovcnt)) [] true = .ok (c', bytes) ∧
      gathered mem' (slice iov 0 iovcnt) = bytes ∧
      bytes.length = iovTotal (slice iov 0 iovcnt) := by
  obtain ⟨n, rfl⟩ : ∃ n, iovcnt = n + 1 := ⟨iovcnt - 1, by omega⟩
  have hfuel : n < n + 2 := by omega
  obtain ⟨s, hs, hscat⟩ := drainPart_spec n (n + 2) ⟨mem, 0, 0, m, []⟩ (Nat.zero_add (n + 1)) hfuel
    rfl htot hpair
  obtain ⟨hle, hm⟩ := hscat.m
  refine ⟨s.mem, s.reads, m.data.take (iovTotal (slice iov 0 (n + 1))),
    { c with rx := { c.rx with rxq := s.m :: rest } }, ?_, ?_, hscat.data, ?_⟩
  · simp only [tcpReadvCopy, hrxq, drainAll]
    change (drainPart iov (n + 1) (n + 2) ⟨mem, 0, 0, m, []⟩ >>= fun s => _) = _
    rw [hs]
    rfl
  · rw [hm]
    simp only [tcpReadCopy, hrxq, if_true, List.map_nil, List.flatten_nil, List.length_nil,
      Nat.sub_zero, List.nil_append, mbufPull, dif_pos hle]
    rfl
  · rw [List.length_take, Mbuf.length_data, min_eq_left htot.le]

end

/-- A read of `len` bytes finds data and takes a whole buffer off `rxq`. -/
def takesWhole (c : Conn) (len : ℕ) : Prop :=
  (c.rx.closed = false ∧ c.rx.exclusive = false ∧ c.rx.rxq ≠ []) ∧
    (readPop len 0 c.rx.rxq).readlen ≠ 0 ∧ (readPop len 0 c.rx.rxq).q ≠ []

theorem tcpReadWait_of_takesWhole {c : Conn} {len : ℕ} (h : takesWhole c len) (tid : Tid)
    (io : Io) : ∃ c' n q part, tcpReadWait c tid len io = (c', .ready n q part) := by
  obtain ⟨⟨hclosed, hex, hne⟩, -⟩ := h
  have hawake : ¬ (c.rx.closed = false ∧ (c.rx.exclusive = true ∨ c.rx.rxq = [])) := by
    simp [hex, hne]
  rw [tcpReadWait, if_neg hawake, if_neg (by simp [hclosed])]
  exact ⟨_, _, _, _, rfl⟩

section

variable {c c' : Conn} {tid : Tid} {mem : ℕ → Byte} {iov : ℕ → Iovec} {iovcnt : ℕ} {io : Io}
  {n : ℕ} {q : List Mbuf} {part : Bool}

/-- Without data the two calls end in the same way. -/
theorem readvSame_of_no_data {w : ReadWait}
    (hlen : (iovLen iov iovcnt).1.toNat = iovTotal (slice iov 0 iovcnt))
    (hw : tcpReadWait c tid (iovTotal (slice iov 0 iovcnt)) io = (c', w))
    (hno : ∀ n q part, w = .ready n q part → n = 0) : ReadvSame c tid mem iov iovcnt io := by
  simp only [ReadvSame, tcpReadv, tcpRead, length_gathered, hlen, hw]
  cases w with
  | sleep => exact ⟨_, _, rfl, rfl, rfl, rfl, rfl, rfl⟩
  | closed ret => exact ⟨_, _, rfl, rfl, rfl, rfl, rfl, rfl⟩
  | ready n q part =>
      have hzero := hno n q part rfl
      simp only [hzero, if_true]
      exact ⟨_, _, rfl, rfl, rfl, rfl, rfl, rfl⟩

/-- The read ends inside the first buffer. -/
theorem readvSame_of_part
    (hlen : (iovLen iov iovcnt).1.toNat = iovTotal (slice iov 0 iovcnt))
    (hpair : (slice iov 0 iovcnt).Pairwise Iovec.Apart)
    (hw : tcpReadWait c tid (iovTotal (slice iov 0 iovcnt)) io = (c', .ready n [] part))
    (hn : n ≠ 0) : ReadvSame c tid mem iov iovcnt io := by
  obtain ⟨-, p, hp, hread, hq, hpart, hrest⟩ := tcpReadWait_ready hw
  have hspec : PopSpec (iovTotal (slice iov 0 iovcnt)) 0 c.rx.rxq p := hp ▸ readPop_spec _ _ 0
  have hinside : p.part = true := by
    by_contra hwhole
    have hcount := hspec.whole (by simpa using hwhole)
    rw [← hq, rxBytes_nil] at hcount
    omega
  obtain ⟨-, m, rest, hm, hpos, hlt⟩ := hspec.inside hinside
  rw [← hq, rxBytes_nil, Nat.add_zero] at hpos hlt
  rw [Nat.zero_add] at hlt
  have hcnt : 0 < iovcnt := by
    by_contra hcnt
    simp [show iovcnt = 0 by omega, iovTotal] at hpos
  obtain ⟨mem', reads, bytes, c₁, hv, hr, hdata, hbytes⟩ :=
    tcpReadvCopy_of_part mem (hrest.trans hm) hcnt hlt hpair
  rw [hinside] at hpart
  subst hpart
  simp only [ReadvSame, tcpReadv, tcpRead, length_gathered, hlen, hw, hn, if_false, hv, hr]
  refine ⟨_, _, rfl, rfl, rfl, ?_, rfl, rfl⟩
  have hdrop : (gathered mem (slice iov 0 iovcnt)).drop bytes.length = [] :=
    List.drop_eq_nil_of_le (by rw [length_gathered, hbytes])
  change gathered mem' (slice iov 0 iovcnt) = bytes ++ (gathered mem _).drop bytes.length
  rw [hdrop, List.append_nil, hdata]

/-- The read takes a whole buffer. -/
theorem not_readvSame_of_whole
    (hlen : (iovLen iov iovcnt).1.toNat = iovTotal (slice iov 0 iovcnt))
    (hw : tcpReadWait c tid (iovTotal (slice iov 0 iovcnt)) io = (c', .ready n q part))
    (hn : n ≠ 0) (hq : q ≠ []) : ¬ ReadvSame c tid mem iov iovcnt io := by
  rintro ⟨v, r, hv, -⟩
  have hcrash : ∃ f, tcpReadvCopy c' mem iov iovcnt q part = .error f ∧ _ :=
    tcpReadvCopy_of_whole c' mem part hq
  obtain ⟨f, hf, -⟩ := hcrash
  simp only [tcpReadv, hlen, hw, hn, if_false, hf] at hv
  cases hv

/-- **The copy of `tcp_readv`.**  Even if the length past the array makes the sum of `iov_len`
right, and the vectors do not overlap, `tcp_readv` has the result of `tcp_read` only if the read
takes no whole buffer. -/
theorem tcp_readv_same_result_iff
    (hlen : (iovLen iov iovcnt).1.toNat = iovTotal (slice iov 0 iovcnt))
    (hpair : (slice iov 0 iovcnt).Pairwise Iovec.Apart) :
    ReadvSame c tid mem iov iovcnt io ↔ ¬ takesWhole c (iovTotal (slice iov 0 iovcnt)) := by
  constructor
  · intro hsame htake
    obtain ⟨c', n, q, part, hw⟩ := tcpReadWait_of_takesWhole htake tid io
    obtain ⟨-, p, hp, hn, hq, -⟩ := tcpReadWait_ready hw
    subst hp
    exact not_readvSame_of_whole hlen hw (hn ▸ htake.2.1) (hq ▸ htake.2.2) hsame
  · intro htake
    rcases hw : tcpReadWait c tid (iovTotal (slice iov 0 iovcnt)) io with ⟨c', w⟩
    by_cases hno : ∀ n q part, w = .ready n q part → n = 0
    · exact readvSame_of_no_data hlen hw hno
    · push Not at hno
      obtain ⟨n, q, part, rfl, hn⟩ := hno
      obtain ⟨hopen, p, hp, hread, hq, -⟩ := tcpReadWait_ready hw
      have hnil : q = [] := by
        by_contra hne
        subst hp
        exact htake ⟨hopen, hread ▸ hn, hq ▸ hne⟩
      subst hnil
      exact readvSame_of_part hlen hpair hw hn

end

end Skyloft
