import Mathlib.Data.BitVec
import Mathlib.Data.List.Nodup
import Mathlib.Logic.Function.Basic
import Skyloft.Lib.Run

/-!
# Transmitting packets

The I/O thread calls `tx_burst` again and again.  A call polls the packet queues of the kthreads,
gets an mbuf for each header it has found, prepares the mbufs and hands them to the NIC, which
takes as many as it has room for.  What the NIC does not take is kept for the next call in static
variables.  The headers and the kthreads they come from stand in local arrays, which have any
contents when a call begins.

An event of the I/O thread is one turn of its polling loop, the allocation of the mbufs with their
preparation, or the call of the NIC; packets arrive and transmitted mbufs return at any time in
between.  A header keeps its contents until its packet is completed.

* `TxBurst`, `burstStep` — the queues, the I/O thread, the pool of mbufs and the NIC.
* `Accounted` — every header that was dequeued is handed to the NIC, prepared or in the arrays.
* `burst_accounted` — this lasts exactly as long as no allocation fails.
-/

namespace Skyloft

open Run

/-! ## Preparing an mbuf -/

/-- `struct tx_net_hdr` with its address. -/
structure TxNetHdr where
  addr : BitVec 64
  completionData : BitVec 64
  len : BitVec 32
  olflags : BitVec 32
  deriving DecidableEq

/-- `io->tx_region.base` and `page_paddrs` -/
structure TxRegion where
  base : BitVec 64
  pagePaddrs : ℕ → BitVec 64

/-- `l2_len`, `l3_len` and `l4_len` -/
structure OffloadLens where
  l2 : ℕ
  l3 : ℕ
  l4 : ℕ
  deriving DecidableEq

/-- What `tx_prepare_tx_mbuf` stores in an mbuf. -/
structure TxMeta where
  bufAddr : BitVec 64
  iova : BitVec 64
  dataOff : ℕ
  refcnt : ℕ
  bufLen : BitVec 16
  pktLen : BitVec 32
  dataLen : BitVec 16
  olFlags : BitVec 64
  /-- not written without flags -/
  lens : Option OffloadLens
  /-- the private data, used to send the completion -/
  kthread : ℕ
  completionData : BitVec 64
  deriving DecidableEq

/-- The offload flags of the packet, as flags of the mbuf: `RTE_MBUF_F_TX_IP_CKSUM`,
`RTE_MBUF_F_TX_TCP_CKSUM`, `RTE_MBUF_F_TX_IPV4` and `RTE_MBUF_F_TX_IPV6`. -/
def txOlFlags (olflags : BitVec 32) : BitVec 64 :=
  (if olflags.getLsbD 0 then 1#64 <<< 54 else 0) ||| (if olflags.getLsbD 1 then 1#64 <<< 52 else 0) |||
    (if olflags.getLsbD 2 then 1#64 <<< 55 else 0) ||| (if olflags.getLsbD 3 then 1#64 <<< 56 else 0)

/-- `tx_prepare_tx_mbuf` for a header and its kthread -/
def txPrepareTxMbuf (r : TxRegion) (e : TxNetHdr × ℕ) : TxMeta :=
  -- the payload follows the header of 18 bytes
  let bufAddr := e.1.addr + 18
  { bufAddr
    iova := r.pagePaddrs ((bufAddr - r.base).toNat / 2 ^ 21) + (bufAddr &&& (2 ^ 21 - 1))
    dataOff := 0
    refcnt := 1
    bufLen := e.1.len.setWidth 16
    pktLen := e.1.len
    dataLen := e.1.len.setWidth 16
    olFlags := if e.1.olflags ≠ 0 then txOlFlags e.1.olflags else 0
    lens := if e.1.olflags ≠ 0 then some { l2 := 14, l3 := 20, l4 := 20 } else none
    kthread := e.2
    completionData := e.1.completionData }

/-! ## The system -/

/-- A message of a packet queue. -/
structure TxMsg where
  cmd : BitVec 64
  hdr : TxNetHdr
  deriving DecidableEq

/-- The command is `TXPKT_NET_XMIT`, and there is a header. -/
def TxMsg.Valid (msg : TxMsg) : Prop := msg.cmd = 0 ∧ msg.hdr.addr ≠ 0

instance (msg : TxMsg) : Decidable msg.Valid := inferInstanceAs (Decidable (_ ∧ _))

/-- Where the I/O thread is in `tx_burst`. -/
inductive BurstPc
  | idle
  /-- before turn `i` of the polling loop -/
  | poll (i : ℕ)
  /-- at the label `full` -/
  | full
  /-- before `rte_eth_tx_burst` -/
  | send
  deriving DecidableEq

/-- The I/O thread with all it works on; `M` are the mbufs. -/
structure TxBurst (M : Type) where
  queue : ℕ → List TxMsg
  pos : BitVec 32
  nPkts : ℕ
  /-- the first `n_bufs` entries of `bufs` -/
  bufs : List M
  prepared : M → TxMeta
  /-- the objects of the `completion_stack` -/
  objs : List M
  /-- the mbufs that the NIC has -/
  nic : List M
  pc : BurstPc
  /-- the arrays `hdrs` and `threads` -/
  slots : ℕ → TxNetHdr × ℕ
  dequeued : List (TxNetHdr × ℕ)
  handed : List TxMeta

/-- `BUG_ON` in `tx_drain_queue` -/
inductive BurstFault
  | bug
  deriving DecidableEq

inductive BurstEvent (M : Type)
  /-- a kthread sends a packet -/
  | arrive (t : ℕ) (msg : TxMsg)
  /-- the NIC returns an mbuf to the pool -/
  | complete (m : M)
  /-- a call of `tx_burst`, with what is in its local arrays -/
  | call (junk : ℕ → TxNetHdr × ℕ)
  /-- the I/O thread goes on, up to the call of the NIC -/
  | work
  /-- `rte_eth_tx_burst` takes some of the mbufs -/
  | accept (ret : ℕ)

/-- Entries are written to an array from an index on. -/
def fill {α : Type} (slots : ℕ → α) (start : ℕ) (xs : List α) : ℕ → α :=
  fun i => if start ≤ i then (xs[i - start]?).getD (slots i) else slots i

/-- The loop that prepares the mbufs. -/
def prepareAll {M : Type} [DecidableEq M] (r : TxRegion) :
    (M → TxMeta) → List M → List (TxNetHdr × ℕ) → M → TxMeta
  | prepared, m :: ms, e :: es =>
      prepareAll r (Function.update prepared m (txPrepareTxMbuf r e)) ms es
  | prepared, [], _ | prepared, _, [] => prepared

namespace TxBurst

variable {M : Type}

/-- At most `n` headers of a kthread are received. -/
def takeHdrs (s : TxBurst M) (t n : ℕ) : TxBurst M :=
  let entries := ((s.queue t).take n).map fun msg => (msg.hdr, t)
  { s with
    queue := Function.update s.queue t ((s.queue t).drop n)
    slots := fill s.slots s.nPkts entries
    nPkts := s.nPkts + entries.length
    dequeued := s.dequeued ++ entries }

/-- `tx_drain_queue`, with what `tx_burst` does with its headers -/
def drainQueue (s : TxBurst M) (t n : ℕ) : Except BurstFault (TxBurst M) :=
  if ∃ msg ∈ (s.queue t).take n, ¬ msg.Valid then .error .bug else .ok (s.takeHdrs t n)

/-- The polling loop before its turn `i`. -/
def pollStep (burst nrKs : ℕ) (s : TxBurst M) (i : ℕ) : Except BurstFault (TxBurst M) :=
  if i < nrKs then
    if burst ≤ s.nPkts then .ok { s with pc := .full }
    else
      { s with pc := .poll (i + 1) }.drainQueue ((s.pos + BitVec.ofNat 32 i).toNat % nrKs)
        (burst - s.nPkts)
  else if s.nPkts = 0 then .ok { s with pc := .idle }
  else .ok { s with pos := s.pos + 1, pc := .full }

/-- The entries of the arrays that have no mbuf yet. -/
def unprepared (s : TxBurst M) : List (TxNetHdr × ℕ) :=
  (List.range (s.nPkts - s.bufs.length)).map fun j => s.slots (s.bufs.length + j)

/-- `rte_eth_tx_burst` takes the first `ret` mbufs. -/
def acceptStep (s : TxBurst M) (ret : ℕ) : TxBurst M :=
  { s with
    handed := s.handed ++ (s.bufs.take ret).map s.prepared
    nic := s.nic ++ s.bufs.take ret
    bufs := s.bufs.drop ret
    nPkts := s.nPkts - ret
    pc := .idle }

/-- `rte_mempool_get_bulk`, which is `completion_dequeue`, and the loop that follows it. -/
def allocStep [DecidableEq M] (r : TxRegion) (s : TxBurst M) : TxBurst M :=
  let n := s.nPkts - s.bufs.length
  if s.objs.length < n then { s with pc := .idle }
  else
    let got := s.objs.drop (s.objs.length - n)
    { s with
      objs := s.objs.take (s.objs.length - n)
      bufs := s.bufs ++ got
      prepared := prepareAll r s.prepared got s.unprepared
      pc := .send }

end TxBurst

/-- One event. -/
def burstStep {M : Type} [DecidableEq M] (r : TxRegion) (burst nrKs : ℕ) (s : TxBurst M) :
    BurstEvent M → Except BurstFault (TxBurst M)
  | .arrive t msg => .ok { s with queue := Function.update s.queue t (s.queue t ++ [msg]) }
  | .complete m =>
      .ok (if m ∈ s.nic then { s with nic := s.nic.erase m, objs := s.objs ++ [m] } else s)
  | .call junk => .ok (if s.pc = .idle then { s with pc := .poll 0, slots := junk } else s)
  | .work =>
      match s.pc with
      | .idle | .send => .ok s
      | .poll i => s.pollStep burst nrKs i
      | .full => .ok (s.allocStep r)
  | .accept ret => .ok (if s.pc = .send then s.acceptStep (min ret s.nPkts) else s)

/-! ## Arrays -/

section

variable {α : Type} {b n : ℕ}

/-- What stands in an array after entries were added. -/
theorem map_range_fill (slots : ℕ → α) (xs : List α) (hb : b ≤ n) :
    ((List.range (n + xs.length - b)).map fun j => fill slots n xs (b + j)) =
      ((List.range (n - b)).map fun j => slots (b + j)) ++ xs := by
  have hlen : n + xs.length - b = (n - b) + xs.length := by omega
  rw [hlen, List.range_add, List.map_append]
  congr 1
  · apply List.map_congr_left
    intro j hj
    have hlt : ¬ n ≤ b + j := by
      rw [List.mem_range] at hj
      omega
    simp [fill, hlt]
  · apply List.ext_getElem
    · simp
    · intro j h₁ h₂
      have hidx : b + (n - b + j) = n + j := by omega
      simp [fill, hidx, h₂]

end

section

variable {M : Type} [DecidableEq M] {r : TxRegion}

theorem prepareAll_of_notMem {x : M} : ∀ {ms : List M} {es : List (TxNetHdr × ℕ)} {prepared : M → TxMeta},
    x ∉ ms → prepareAll r prepared ms es x = prepared x := by
  intro ms
  induction ms with
  | nil => intro es prepared _; cases es <;> rfl
  | cons m ms ih =>
      intro es prepared hx
      rw [List.mem_cons, not_or] at hx
      cases es with
      | nil => rfl
      | cons e es =>
          rw [prepareAll, ih hx.2]
          exact Function.update_of_ne hx.1 _ _

/-- Each mbuf is prepared from the entry with the same index. -/
theorem map_prepareAll : ∀ {ms : List M} {es : List (TxNetHdr × ℕ)} {prepared : M → TxMeta},
    ms.Nodup → ms.length = es.length →
    ms.map (prepareAll r prepared ms es) = es.map (txPrepareTxMbuf r) := by
  intro ms
  induction ms with
  | nil =>
      intro es prepared _ hlen
      cases es with
      | nil => rfl
      | cons e es => cases hlen
  | cons m ms ih =>
      intro es prepared hnd hlen
      rw [List.nodup_cons] at hnd
      cases es with
      | nil => cases hlen
      | cons e es =>
          rw [List.map_cons, List.map_cons, prepareAll, ih hnd.2 (by simpa using hlen),
            prepareAll_of_notMem hnd.1, Function.update_self]

end

/-! ## The invariant -/

/-- The mbufs are in one place each, and the counters count. -/
structure BurstInv {M : Type} (s : TxBurst M) : Prop where
  owned : (s.bufs ++ s.objs ++ s.nic).Nodup
  count : s.handed.length + s.nPkts = s.dequeued.length
  le : s.bufs.length ≤ s.nPkts
  send : s.pc = .send → s.bufs.length = s.nPkts
  msgs : ∀ t, ∀ msg ∈ s.queue t, msg.Valid

namespace TxBurst

variable {M : Type} {r : TxRegion} {s : TxBurst M}

/-- The headers that only the arrays of the call that runs have. -/
def carried (s : TxBurst M) : List (TxNetHdr × ℕ) :=
  match s.pc with
  | .poll _ | .full => s.unprepared
  | .idle | .send => []

/-- Every header that was dequeued is handed to the NIC, stands prepared in an mbuf, or is in the
arrays, in this order and with the kthread it came from. -/
def Accounted (r : TxRegion) (s : TxBurst M) : Prop :=
  s.handed ++ s.bufs.map s.prepared ++ s.carried.map (txPrepareTxMbuf r) =
    s.dequeued.map (txPrepareTxMbuf r)

/-- Between two calls all headers have their mbufs. -/
theorem length_bufs (h : BurstInv s) (hp : s.Accounted r) (hc : s.carried = []) :
    s.bufs.length = s.nPkts := by
  have hlen := congrArg List.length hp
  simp only [hc, List.map_nil, List.append_nil, List.length_append, List.length_map] at hlen
  have hcount := h.count
  omega

/-- The I/O thread moves on. -/
theorem setPc_inv (h : BurstInv s) (pc : BurstPc) (hne : pc ≠ .send) : BurstInv { s with pc } where
  owned := h.owned
  count := h.count
  le := h.le
  send hsend := absurd hsend hne
  msgs := h.msgs

theorem call_inv (h : BurstInv s) (hp : s.Accounted r) (hpc : s.pc = .idle) (junk : ℕ → TxNetHdr × ℕ) :
    BurstInv { s with pc := .poll 0, slots := junk } ∧
      Accounted r { s with pc := .poll 0, slots := junk } := by
  have hc : s.carried = [] := by simp [carried, hpc]
  have hlen := length_bufs h hp hc
  constructor
  · have hpoll := setPc_inv h (.poll 0) (by simp)
    exact ⟨hpoll.owned, hpoll.count, hpoll.le, hpoll.send, hpoll.msgs⟩
  · simpa [Accounted, carried, unprepared, hlen, hpc] using hp

theorem takeHdrs_inv (h : BurstInv s) (hp : s.Accounted r) {i : ℕ} (hpc : s.pc = .poll i) (t n : ℕ) :
    BurstInv (s.takeHdrs t n) ∧ (s.takeHdrs t n).Accounted r := by
  have hcount := h.count
  have hle := h.le
  refine ⟨⟨h.owned, ?_, ?_, ?_, ?_⟩, ?_⟩
  · simp only [takeHdrs, List.length_append]
    omega
  · simp only [takeHdrs]
    omega
  · intro hsend
    rw [takeHdrs, hpc] at hsend
    cases hsend
  · intro t' msg hmsg
    by_cases ht : t' = t
    · subst ht
      simp only [takeHdrs, Function.update_self] at hmsg
      exact h.msgs t' msg (List.mem_of_mem_drop hmsg)
    · simp only [takeHdrs, Function.update_of_ne ht] at hmsg
      exact h.msgs t' msg hmsg
  · have hfill := map_range_fill s.slots (((s.queue t).take n).map fun msg => (msg.hdr, t)) h.le
    simp only [Accounted, carried, hpc, unprepared] at hp
    simp only [Accounted, takeHdrs, carried, hpc, unprepared, hfill, List.map_append, ← hp,
      List.append_assoc]

/-- A turn of the polling loop. -/
theorem pollStep_inv (h : BurstInv s) (hp : s.Accounted r) {i : ℕ} (hpc : s.pc = .poll i)
    (burst nrKs : ℕ) :
    ∃ s', s.pollStep burst nrKs i = .ok s' ∧ BurstInv s' ∧ s'.Accounted r := by
  unfold pollStep
  split
  · split
    · refine ⟨_, rfl, setPc_inv h .full (by simp), ?_⟩
      simpa [Accounted, carried, unprepared, hpc] using hp
    · have hvalid : ∀ t n, ¬ ∃ msg ∈ (s.queue t).take n, ¬ msg.Valid := by
        intro t n hbad
        obtain ⟨msg, hmsg, hnot⟩ := hbad
        exact hnot (h.msgs t msg (List.mem_of_mem_take hmsg))
      refine ⟨_, if_neg (hvalid _ _), ?_⟩
      apply takeHdrs_inv (setPc_inv h (.poll (i + 1)) (by simp)) _ rfl
      simpa [Accounted, carried, unprepared, hpc] using hp
  · split
    · rename_i hzero
      refine ⟨_, rfl, setPc_inv h .idle (by simp), ?_⟩
      simpa [Accounted, carried, unprepared, hpc, hzero] using hp
    · refine ⟨_, rfl, ⟨h.owned, h.count, h.le, fun hsend => by simp at hsend, h.msgs⟩, ?_⟩
      simpa [Accounted, carried, unprepared, hpc] using hp

theorem acceptStep_inv (h : BurstInv s) (hp : s.Accounted r) (hpc : s.pc = .send) {ret : ℕ}
    (hret : ret ≤ s.nPkts) : BurstInv (s.acceptStep ret) ∧ (s.acceptStep ret).Accounted r := by
  have hlen := h.send hpc
  have hcount := h.count
  refine ⟨⟨?_, ?_, ?_, ?_, h.msgs⟩, ?_⟩
  · have hperm : (s.bufs.drop ret ++ s.objs ++ s.nic ++ s.bufs.take ret).Perm
        (s.bufs.take ret ++ (s.bufs.drop ret ++ s.objs ++ s.nic)) := List.perm_append_comm
    simp only [← List.append_assoc, List.take_append_drop] at hperm
    change (s.bufs.drop ret ++ s.objs ++ (s.nic ++ s.bufs.take ret)).Nodup
    rw [← List.append_assoc]
    exact hperm.nodup_iff.mpr h.owned
  · simp only [acceptStep, List.length_append, List.length_map, List.length_take]
    omega
  · simp only [acceptStep, List.length_drop]
    omega
  · intro hsend
    cases hsend
  · simp only [Accounted, carried, hpc, List.map_nil, List.append_nil] at hp
    simp only [Accounted, acceptStep, carried, List.map_nil, List.append_nil, List.append_assoc,
      ← List.map_append, List.take_append_drop, hp]

variable [DecidableEq M]

/-- The mbufs are allocated and prepared. -/
theorem allocStep_inv (h : BurstInv s) (hp : s.Accounted r) (hpc : s.pc = .full)
    (hroom : s.nPkts - s.bufs.length ≤ s.objs.length) :
    BurstInv (s.allocStep r) ∧ (s.allocStep r).Accounted r := by
  have hle := h.le
  have howned := h.owned
  have hsplit := List.take_append_drop (s.objs.length - (s.nPkts - s.bufs.length)) s.objs
  have hgot : (s.objs.drop (s.objs.length - (s.nPkts - s.bufs.length))).length =
      s.nPkts - s.bufs.length := by
    rw [List.length_drop]
    omega
  simp only [allocStep, if_neg (Nat.not_lt.mpr hroom)]
  generalize s.objs.drop (s.objs.length - (s.nPkts - s.bufs.length)) = got at hsplit hgot ⊢
  generalize s.objs.take (s.objs.length - (s.nPkts - s.bufs.length)) = kept at hsplit ⊢
  rw [← hsplit] at howned
  have hnd : got.Nodup ∧ ∀ m ∈ s.bufs, m ∉ got := by
    simp only [List.nodup_append, List.mem_append] at howned
    grind
  refine ⟨⟨?_, h.count, ?_, ?_, h.msgs⟩, ?_⟩
  · have hperm : (s.bufs ++ got ++ kept ++ s.nic).Perm (s.bufs ++ (kept ++ got) ++ s.nic) := by
      simp only [List.append_assoc]
      exact List.Perm.append_left _ (List.perm_append_comm_assoc _ _ _)
    exact hperm.nodup_iff.mpr howned
  · simp only [List.length_append, hgot]
    omega
  · intro _
    simp only [List.length_append, hgot]
    omega
  · have hold : s.bufs.map (prepareAll r s.prepared got s.unprepared) = s.bufs.map s.prepared := by
      apply List.map_congr_left
      intro m hm
      exact prepareAll_of_notMem (hnd.2 m hm)
    have hnew : got.map (prepareAll r s.prepared got s.unprepared) =
        s.unprepared.map (txPrepareTxMbuf r) := by
      apply map_prepareAll hnd.1
      simp [unprepared, hgot]
    simp only [Accounted, carried, hpc] at hp
    simp only [Accounted, carried, List.map_append, hold, hnew, List.map_nil, List.append_nil]
    rw [← List.append_assoc, hp]

/-- The NIC returns an mbuf. -/
theorem complete_inv (h : BurstInv s) {m : M} (hm : m ∈ s.nic) :
    BurstInv { s with nic := s.nic.erase m, objs := s.objs ++ [m] } := by
  refine ⟨?_, h.count, h.le, h.send, h.msgs⟩
  have hperm : (s.bufs ++ s.objs ++ s.nic).Perm (s.bufs ++ s.objs ++ m :: s.nic.erase m) :=
    List.Perm.append_left _ (List.perm_cons_erase hm)
  have hnd := hperm.nodup_iff.mp h.owned
  simpa [List.append_assoc] using hnd

/-! ## Runs -/

/-- The kthreads send messages as `net_tx_raw` does. -/
def Allowed (_ : TxBurst M) : BurstEvent M → Prop
  | .arrive _ msg => msg.Valid
  | .complete _ | .call _ | .work | .accept _ => True

/-- The pool has enough mbufs when `tx_burst` gets some. -/
def GetsMbufs (s : TxBurst M) : BurstEvent M → Prop
  | .work => s.pc = .full → s.nPkts - s.bufs.length ≤ s.objs.length
  | .arrive _ _ | .complete _ | .call _ | .accept _ => True

instance (s : TxBurst M) : (e : BurstEvent M) → Decidable (s.Allowed e)
  | .arrive _ msg => inferInstanceAs (Decidable msg.Valid)
  | .complete _ | .call _ | .work | .accept _ => inferInstanceAs (Decidable True)

instance (s : TxBurst M) : (e : BurstEvent M) → Decidable (s.GetsMbufs e)
  | .work => inferInstanceAs (Decidable (s.pc = .full → s.nPkts - s.bufs.length ≤ s.objs.length))
  | .arrive _ _ | .complete _ | .call _ | .accept _ => inferInstanceAs (Decidable True)

theorem burstStep_inv (h : BurstInv s) (hp : s.Accounted r) (burst nrKs : ℕ) {e : BurstEvent M}
    (he : s.Allowed e) (hgets : s.GetsMbufs e) :
    ∃ s', burstStep r burst nrKs s e = .ok s' ∧ BurstInv s' ∧ s'.Accounted r := by
  cases e with
  | arrive t msg =>
      refine ⟨_, rfl, ⟨h.owned, h.count, h.le, h.send, ?_⟩, hp⟩
      intro t' msg' hmsg
      by_cases ht : t' = t
      · subst ht
        simp only [Function.update_self, List.mem_append, List.mem_singleton] at hmsg
        rcases hmsg with hmsg | hmsg
        · exact h.msgs t' msg' hmsg
        · rw [hmsg]
          exact he
      · simp only [Function.update_of_ne ht] at hmsg
        exact h.msgs t' msg' hmsg
  | complete m =>
      refine ⟨_, rfl, ?_⟩
      split
      · rename_i hm
        exact ⟨complete_inv h hm, hp⟩
      · exact ⟨h, hp⟩
  | call junk =>
      refine ⟨_, rfl, ?_⟩
      split
      · rename_i hpc
        exact call_inv h hp hpc junk
      · exact ⟨h, hp⟩
  | work =>
      cases hpc : s.pc with
      | idle => exact ⟨s, by simp only [burstStep, hpc], h, hp⟩
      | send => exact ⟨s, by simp only [burstStep, hpc], h, hp⟩
      | poll i => simpa only [burstStep, hpc] using pollStep_inv h hp hpc burst nrKs
      | full =>
          exact ⟨s.allocStep r, by simp only [burstStep, hpc], allocStep_inv h hp hpc (hgets hpc)⟩
  | accept ret =>
      refine ⟨_, rfl, ?_⟩
      split
      · rename_i hpc
        exact acceptStep_inv h hp hpc (Nat.min_le_right _ _)
      · exact ⟨h, hp⟩

/-- When an allocation fails, nothing is left of the headers that were to get the mbufs. -/
theorem headers_lost (h : BurstInv s) (burst nrKs : ℕ) {e : BurstEvent M} (hgets : ¬ s.GetsMbufs e) :
    ∃ s', burstStep r burst nrKs s e = .ok s' ∧ ¬ s'.Accounted r := by
  cases e with
  | work =>
      obtain ⟨hpc, hroom⟩ : s.pc = .full ∧ s.objs.length < s.nPkts - s.bufs.length := by
        simpa only [GetsMbufs, Classical.not_imp, Nat.not_le] using hgets
      refine ⟨{ s with pc := .idle }, by simp only [burstStep, hpc, allocStep, if_pos hroom], ?_⟩
      intro hp
      have hlen := length_bufs (setPc_inv h .idle (by simp)) hp rfl
      dsimp only at hlen
      omega
  | arrive t msg => exact absurd trivial hgets
  | complete m => exact absurd trivial hgets
  | call junk => exact absurd trivial hgets
  | accept ret => exact absurd trivial hgets

/-- Nothing has arrived yet. -/
def start (objs : List M) (prepared : M → TxMeta) (slots : ℕ → TxNetHdr × ℕ) : TxBurst M where
  queue _ := []
  pos := 0
  nPkts := 0
  bufs := []
  prepared := prepared
  objs := objs
  nic := []
  pc := .idle
  slots := slots
  dequeued := []
  handed := []

/-- `tx_burst` loses and mislabels no header in a run exactly if none of its allocations fails. -/
theorem burst_accounted (r : TxRegion) (burst nrKs : ℕ) {objs : List M} (hobjs : objs.Nodup)
    (prepared : M → TxMeta) (slots : ℕ → TxNetHdr × ℕ) (es : List (BurstEvent M))
    (hes : Along (burstStep r burst nrKs) Allowed (start objs prepared slots) es) :
    Throughout (burstStep r burst nrKs) (Accounted r) (start objs prepared slots) es ↔
      Along (burstStep r burst nrKs) GetsMbufs (start objs prepared slots) es := by
  have hstart : BurstInv (start objs prepared slots) := by
    constructor <;> simp [start, hobjs]
  have hnone : (start objs prepared slots).Accounted r := rfl
  apply throughout_iff_along (I := BurstInv) _ _ hstart hnone hes
  · intro s e s' h hp he hgets hs'
    obtain ⟨u, hu, hi⟩ := burstStep_inv h hp burst nrKs he hgets
    cases hu.symm.trans hs'
    exact hi
  · intro s e h _ _ hgets
    exact headers_lost h burst nrKs hgets

/-- A packet of 60 bytes, by its number. -/
def packet (n : ℕ) : TxNetHdr where
  addr := BitVec.ofNat 64 (4096 * n)
  completionData := BitVec.ofNat 64 n
  len := 60
  olflags := 0

def region : TxRegion where
  base := 0
  pagePaddrs _ := 0

/-- What a call finds in its arrays. -/
def stack : ℕ → TxNetHdr × ℕ := fun _ => (packet 99, 7)

/-- A call of `tx_burst` with one kthread. -/
def callOf (ret : ℕ) : List (BurstEvent ℕ) := [.call stack, .work, .work, .work, .accept ret]

/-- A packet, two more, and a third call after the NIC has returned the first mbuf. -/
def threeCalls : List (BurstEvent ℕ) :=
  .arrive 0 ⟨0, packet 1⟩ :: callOf 1 ++
    [.arrive 0 ⟨0, packet 2⟩, .arrive 0 ⟨0, packet 3⟩] ++ callOf 1 ++ .complete 2 :: callOf 2

/-- With three mbufs no allocation fails. -/
theorem burst_accounted_threeCalls :
    Along (burstStep region 64 1) GetsMbufs
      (start [1, 3, 2] (fun _ => txPrepareTxMbuf region (packet 0, 0)) stack) threeCalls ∧
    Throughout (burstStep region 64 1) (Accounted region)
      (start [1, 3, 2] (fun _ => txPrepareTxMbuf region (packet 0, 0)) stack) threeCalls :=
  have hgets : Along (burstStep region 64 1) GetsMbufs
      (start [1, 3, 2] (fun _ => txPrepareTxMbuf region (packet 0, 0)) stack) threeCalls := by
    decide
  ⟨hgets, (burst_accounted region 64 1 (by decide) _ _ _ (by decide)).mpr hgets⟩

/-- With two mbufs the second call fails to get two, and the third one prepares them from what it
finds in its arrays. -/
theorem headers_from_the_stack :
    Along (burstStep region 64 1) Allowed
      (start [1, 2] (fun _ => txPrepareTxMbuf region (packet 0, 0)) stack) threeCalls ∧
    ∃ s : TxBurst ℕ, exec (burstStep region 64 1)
        (start [1, 2] (fun _ => txPrepareTxMbuf region (packet 0, 0)) stack) threeCalls = .ok s ∧
      s.dequeued = [(packet 1, 0), (packet 2, 0), (packet 3, 0)] ∧
      s.handed = [(packet 1, 0), (packet 99, 7), (packet 99, 7)].map (txPrepareTxMbuf region) ∧
      ¬ s.Accounted region := by
  refine ⟨by decide, _, exec_final (by decide), by decide, by decide, ?_⟩
  unfold Accounted
  decide

end TxBurst

end Skyloft
