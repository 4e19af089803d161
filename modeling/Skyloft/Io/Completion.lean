import Mathlib.Data.BitVec
import Mathlib.Data.List.Nodup
import Mathlib.Data.Multiset.AddSub
import Mathlib.Logic.Function.Basic
import Skyloft.Lib.Run

/-!
# Transmit completions

When the NIC is done with an mbuf it returns it to its pool.  The pool is one that tells the runtime
before it takes the mbuf: `completion_enqueue` sends the completion data of the packet, which is the
address of its egress buffer, to the kthread that has sent it.  If the receive queue there is full,
the data is kept in `overflow_queue`, which `tx_drain_completions` empties from its end.

An mbuf can be used again before its completion is delivered; an egress buffer cannot.  Which receive
queues are full is part of each call: it is given what its calls of `lrpc_send` return.

* `mempoolPopulate`, `maxOverflows` — the egress buffers and the room for completions.
* `Completions`, `compStep` — the pool, the overflow queue and the receive queues.
* `CompInv` — a completion is pending, in the overflow queue or delivered.
* `completions_exact` — none is lost or delivered twice, and the overflow queue is never full.
-/

namespace Skyloft

open Run

/-! ## The buffers -/

/-- `IO_PKTQ_SIZE`, `MBUF_DEFAULT_LEN`, `PGSIZE_2MB` and `USED_CPUS` -/
def ioPktqSize : ℕ := 4096

def mbufDefaultLen : ℕ := 2048

def pgsize2MB : ℕ := 2 ^ 21

def usedCpus : ℕ := 24

/-- `EGRESS_POOL_SIZE` -/
def egressPoolSize (nks : ℕ) : ℕ := ioPktqSize * mbufDefaultLen * max 16 nks * 16

/-- `proc->max_overflows`, as `iothread_init` computes it -/
def maxOverflows (nks : ℕ) : ℕ := egressPoolSize nks / mbufDefaultLen % 2 ^ 32

/-- `mempool_populate`: the addresses of the items. -/
def mempoolPopulate (buf len pgSz itemLen : ℕ) : List ℕ :=
  (List.range (len / pgSz)).flatMap fun i =>
    (List.range (pgSz / itemLen)).map fun j => buf + pgSz * i + itemLen * j

/-- The buffers of the pool that `net_init` creates. -/
def egressBuffers (base nks : ℕ) : List ℕ :=
  mempoolPopulate base (egressPoolSize nks) pgsize2MB mbufDefaultLen

theorem length_mempoolPopulate (buf len pgSz itemLen : ℕ) :
    (mempoolPopulate buf len pgSz itemLen).length = len / pgSz * (pgSz / itemLen) := by
  simp [mempoolPopulate]

/-- There is room for the completions of all egress buffers. -/
theorem length_egressBuffers {nks : ℕ} (hnks : nks ≤ usedCpus) (base : ℕ) :
    (egressBuffers base nks).length = maxOverflows nks := by
  rw [egressBuffers, length_mempoolPopulate, maxOverflows, egressPoolSize]
  simp only [ioPktqSize, mbufDefaultLen, pgsize2MB, usedCpus] at hnks ⊢
  omega

/-! ## The system -/

/-- `struct tx_pktmbuf_priv`; whether `p` is set. -/
structure TxPriv where
  p : Bool
  t : ℕ
  completionData : ℕ

/-- The pool, the fields of `struct proc` and the receive queues; `M` are the mbufs. -/
structure Completions (M : Type) where
  priv : M → TxPriv
  /-- the `completion_stack` -/
  size : ℕ
  objs : List M
  /-- the mbufs that are not in the pool -/
  out : List M
  exited : Bool
  parked : ℕ → Bool
  nextRr : BitVec 32
  maxOverflows : ℕ
  overflow : List ℕ
  /-- what was put into the receive queues: the kthread and the completion data -/
  delivered : List (ℕ × ℕ)
  transmitted : Multiset ℕ
  /-- the completion data of the mbufs that were returned -/
  returned : Multiset ℕ
  /-- a completion was given up -/
  dropped : Bool

/-- `BUG()` in `rx_send_to_runtime` -/
inductive CompFault
  | bug
  deriving DecidableEq

inductive CompEvent (M : Type)
  /-- a packet is prepared in an mbuf from the pool, and handed to the NIC -/
  | transmit (t b : ℕ)
  | park (t : ℕ) (b : Bool)
  /-- `completion_enqueue`, with what its calls of `lrpc_send` return -/
  | enqueue (ms : List M) (sends : List Bool)
  /-- `tx_drain_completions`, with what its calls of `lrpc_send` return -/
  | drain (n : ℕ) (sends : List Bool)

namespace Completions

variable {M : Type}

/-- `rx_send_to_runtime`, with what `lrpc_send` returns -/
def rxSendToRuntime (nks : ℕ) (s : Completions M) (hash : BitVec 32) (data : ℕ) (ok : Bool) :
    Except CompFault (Bool × Completions M) :=
  if nks = 0 then .error .bug
  else
    .ok (ok, if ok then { s with delivered := s.delivered ++ [(hash.toNat % nks, data)] } else s)

/-- The first try of `tx_send_completion`. -/
def trySend (nks : ℕ) (s : Completions M) (t data : ℕ) (ok : Bool) :
    Except CompFault (Bool × Completions M) :=
  if s.parked t then { s with nextRr := s.nextRr + 1 }.rxSendToRuntime nks s.nextRr data ok
  else .ok (ok, if ok then { s with delivered := s.delivered ++ [(t, data)] } else s)

/-- `tx_send_completion` -/
def txSendCompletion (nks : ℕ) (s : Completions M) (m : M) (ok : Bool) :
    Except CompFault (Completions M) :=
  if ¬ (s.priv m).p ∨ s.exited then .ok s
  else
    match s.trySend nks (s.priv m).t (s.priv m).completionData ok with
    | .error f => .error f
    | .ok (true, s) => .ok s
    | .ok (false, s) =>
        if s.overflow.length = s.maxOverflows then .ok { s with dropped := true }
        else .ok { s with overflow := s.overflow ++ [(s.priv m).completionData] }

/-- The loop of `completion_enqueue`. -/
def sendAll (nks : ℕ) : Completions M → List M → List Bool → Except CompFault (Completions M)
  | s, [], _ => .ok s
  | s, m :: ms, sends =>
      match s.txSendCompletion nks m (sends.headD false) with
      | .error f => .error f
      | .ok s => sendAll nks s ms sends.tail

/-- `completion_enqueue` -/
def completionEnqueue [DecidableEq M] (nks : ℕ) (s : Completions M) (ms : List M) (sends : List Bool) :
    Except CompFault (Completions M) :=
  if s.size < s.objs.length + ms.length then .ok { s with dropped := true }
  else
    match s.sendAll nks ms sends with
    | .error f => .error f
    | .ok s =>
        .ok { s with
          objs := s.objs ++ ms
          out := s.out.diff ms
          returned := s.returned + ↑(ms.map fun m => (s.priv m).completionData) }

/-- `tx_drain_completions`; the loop goes at most `n` turns. -/
def txDrainCompletions (nks : ℕ) : Completions M → ℕ → List Bool → Except CompFault (Completions M)
  | s, 0, _ => .ok s
  | s, n + 1, sends =>
      match s.overflow.getLast? with
      | none => .ok s
      | some data =>
          match { s with nextRr := s.nextRr + 1 }.rxSendToRuntime nks s.nextRr data
              (sends.headD false) with
          | .error f => .error f
          | .ok (false, s) => .ok s
          | .ok (true, s) =>
              txDrainCompletions nks { s with overflow := s.overflow.dropLast } n sends.tail

/-- An mbuf is taken from the pool, prepared and handed to the NIC. -/
def transmit [DecidableEq M] (s : Completions M) (t b : ℕ) : Completions M :=
  match s.objs.getLast? with
  | none => s
  | some m =>
      { s with
        objs := s.objs.dropLast
        out := m :: s.out
        priv := Function.update s.priv m { p := true, t, completionData := b }
        transmitted := b ::ₘ s.transmitted }

end Completions

/-- One event. -/
def compStep {M : Type} [DecidableEq M] (nks : ℕ) (s : Completions M) :
    CompEvent M → Except CompFault (Completions M)
  | .transmit t b => .ok (s.transmit t b)
  | .park t b => .ok { s with parked := Function.update s.parked t b }
  | .enqueue ms sends => s.completionEnqueue nks ms sends
  | .drain n sends => s.txDrainCompletions nks n sends

/-! ## The invariant -/

/-- The completions of the mbufs `pend` are still to be sent; the others are in the overflow queue or
delivered.  No two of those that are not delivered are for the same buffer. -/
structure CompInv {M : Type} (nks base : ℕ) (pend : List M) (s : Completions M) : Prop where
  ledger : s.transmitted = ↑(s.delivered.map Prod.snd) + ↑s.overflow +
    ↑(pend.map fun m => (s.priv m).completionData)
  distinct : (s.overflow ++ pend.map fun m => (s.priv m).completionData).Nodup
  buffers : ∀ b ∈ s.overflow ++ pend.map fun m => (s.priv m).completionData, b ∈ egressBuffers base nks
  prepared : ∀ m ∈ pend, (s.priv m).p = true ∧ (s.priv m).t < nks
  kthreads : ∀ d ∈ s.delivered, d.1 < nks
  max : s.maxOverflows = maxOverflows nks
  exited : s.exited = false
  dropped : s.dropped = false

/-- What sending completions leaves alone. -/
structure SamePool {M : Type} (s s' : Completions M) : Prop where
  priv : s'.priv = s.priv
  size : s'.size = s.size
  objs : s'.objs = s.objs
  out : s'.out = s.out
  transmitted : s'.transmitted = s.transmitted
  returned : s'.returned = s.returned

theorem SamePool.refl {M : Type} (s : Completions M) : SamePool s s := ⟨rfl, rfl, rfl, rfl, rfl, rfl⟩

theorem SamePool.trans {M : Type} {s t u : Completions M} (h₁ : SamePool s t) (h₂ : SamePool t u) :
    SamePool s u :=
  ⟨h₂.priv.trans h₁.priv, h₂.size.trans h₁.size, h₂.objs.trans h₁.objs, h₂.out.trans h₁.out,
    h₂.transmitted.trans h₁.transmitted, h₂.returned.trans h₁.returned⟩

namespace Completions

variable {M : Type} {nks base : ℕ} {s : Completions M} {pend : List M} {m : M}

/-- The order of the mbufs does not matter. -/
theorem perm_inv (h : CompInv nks base pend s) {pend' : List M} (hperm : pend.Perm pend') :
    CompInv nks base pend' s := by
  have hmap := hperm.map fun m => (s.priv m).completionData
  refine ⟨?_, ?_, ?_, ?_, h.kthreads, h.max, h.exited, h.dropped⟩
  · rw [h.ledger, Multiset.coe_eq_coe.mpr hmap]
  · exact (hmap.append_left _).nodup_iff.mp h.distinct
  · intro b hb
    exact h.buffers b ((hmap.append_left _).mem_iff.mpr hb)
  · intro m hm
    exact h.prepared m (hperm.mem_iff.mpr hm)

/-- While a completion is to be sent there is room for it. -/
theorem overflow_lt (hnks : nks ≤ usedCpus) (h : CompInv nks base (m :: pend) s) :
    s.overflow.length < s.maxOverflows := by
  have hnd : (s.overflow ++ [(s.priv m).completionData]).Nodup := by
    have hd := h.distinct
    rw [List.map_cons, List.append_cons] at hd
    exact hd.of_append_left
  have hsub : s.overflow ++ [(s.priv m).completionData] ⊆ egressBuffers base nks := by
    intro b hb
    apply h.buffers
    rw [List.map_cons, List.append_cons]
    exact List.mem_append_left _ hb
  have hle := hnd.length_le_of_subset hsub
  rw [length_egressBuffers hnks, ← h.max, List.length_append, List.length_singleton] at hle
  omega

/-- What the first try does. -/
theorem trySend_spec (hpos : 0 < nks) {t : ℕ} (ht : t < nks) (data : ℕ) (ok : Bool) :
    ∃ t' rr, t' < nks ∧ s.trySend nks t data ok = .ok (ok,
      if ok then { s with nextRr := rr, delivered := s.delivered ++ [(t', data)] }
      else { s with nextRr := rr }) := by
  unfold trySend
  split
  · refine ⟨s.nextRr.toNat % nks, s.nextRr + 1, Nat.mod_lt _ hpos, ?_⟩
    rw [rxSendToRuntime, if_neg (by omega)]
  · exact ⟨t, s.nextRr, ht, rfl⟩

theorem txSendCompletion_inv (hpos : 0 < nks) (hnks : nks ≤ usedCpus)
    (h : CompInv nks base (m :: pend) s) (ok : Bool) :
    ∃ s', s.txSendCompletion nks m ok = .ok s' ∧ CompInv nks base pend s' ∧ SamePool s s' := by
  obtain ⟨hp, ht⟩ := h.prepared m List.mem_cons_self
  obtain ⟨t', rr, ht', htry⟩ := trySend_spec (s := s) hpos ht (s.priv m).completionData ok
  have hguard : ¬ (¬ (s.priv m).p = true ∨ s.exited = true) := by simp [hp, h.exited]
  rw [txSendCompletion, if_neg hguard, htry]
  have hdist := h.distinct
  rw [List.map_cons] at hdist
  have hpend : ∀ m' ∈ pend, (s.priv m').p = true ∧ (s.priv m').t < nks := fun m' hm' =>
    h.prepared m' (List.mem_cons_of_mem m hm')
  cases ok with
  | true =>
      refine ⟨_, rfl, ⟨?_, ?_, ?_, hpend, ?_, h.max, h.exited, h.dropped⟩,
        ⟨rfl, rfl, rfl, rfl, rfl, rfl⟩⟩
      · rw [if_pos rfl, h.ledger]
        simpa using List.Perm.append_left _ List.perm_middle
      · exact (List.nodup_middle.mp hdist).of_cons
      · intro b hb
        apply h.buffers
        rw [List.map_cons]
        exact List.mem_append.mpr ((List.mem_append.mp hb).imp_right (List.mem_cons_of_mem _))
      · intro d hd
        rcases List.mem_append.mp hd with hd | hd
        · exact h.kthreads d hd
        · rw [List.mem_singleton.mp hd]
          exact ht'
  | false =>
      have hroom := overflow_lt hnks h
      have hne : ¬ s.overflow.length = s.maxOverflows := by omega
      refine ⟨{ s with nextRr := rr, overflow := s.overflow ++ [(s.priv m).completionData] },
        if_neg hne, ⟨?_, ?_, ?_, hpend, h.kthreads, h.max, h.exited, h.dropped⟩,
        ⟨rfl, rfl, rfl, rfl, rfl, rfl⟩⟩
      · rw [h.ledger]
        simp
      · rw [List.append_assoc]
        exact hdist
      · intro b hb
        apply h.buffers
        rw [List.append_assoc] at hb
        exact hb

/-- The loop of `completion_enqueue`. -/
theorem sendAll_inv (hpos : 0 < nks) (hnks : nks ≤ usedCpus) : ∀ {ms : List M} {s : Completions M}
    (sends : List Bool), CompInv nks base (ms ++ pend) s →
    ∃ s', s.sendAll nks ms sends = .ok s' ∧ CompInv nks base pend s' ∧ SamePool s s' := by
  intro ms
  induction ms with
  | nil => intro s sends h; exact ⟨s, rfl, h, .refl s⟩
  | cons m ms ih =>
      intro s sends h
      obtain ⟨u, hu, hi, hsame⟩ := txSendCompletion_inv hpos hnks h (sends.headD false)
      obtain ⟨s', hs', hi', hsame'⟩ := ih sends.tail hi
      exact ⟨s', by rw [sendAll, hu]; exact hs', hi', hsame.trans hsame'⟩

/-- The last completion of the overflow queue is delivered. -/
theorem drained_inv (h : CompInv nks base pend s) {data t : ℕ} {rest : List ℕ}
    (hover : s.overflow = rest ++ [data]) (ht : t < nks) (rr : BitVec 32) :
    CompInv nks base pend
      { s with nextRr := rr, delivered := s.delivered ++ [(t, data)], overflow := rest } := by
  have hmid : ∀ tail : List ℕ, (s.overflow ++ tail).Perm (data :: (rest ++ tail)) := by
    intro tail
    rw [hover, List.append_assoc]
    exact List.perm_middle
  refine ⟨?_, ?_, ?_, h.prepared, ?_, h.max, h.exited, h.dropped⟩
  · rw [h.ledger]
    simpa using List.Perm.append_left _ (hmid _)
  · exact ((hmid _).nodup_iff.mp h.distinct).of_cons
  · intro b hb
    exact h.buffers b ((hmid _).mem_iff.mpr (List.mem_cons_of_mem _ hb))
  · intro d hd
    rcases List.mem_append.mp hd with hd | hd
    · exact h.kthreads d hd
    · rw [List.mem_singleton.mp hd]
      exact ht

/-- `tx_drain_completions` -/
theorem txDrainCompletions_inv (hpos : 0 < nks) : ∀ {n : ℕ} {s : Completions M} (sends : List Bool),
    CompInv nks base pend s →
    ∃ s', s.txDrainCompletions nks n sends = .ok s' ∧ CompInv nks base pend s' ∧ SamePool s s' := by
  intro n
  induction n with
  | zero => intro s sends h; exact ⟨s, rfl, h, .refl s⟩
  | succ n ih =>
      intro s sends h
      rw [txDrainCompletions]
      cases hlast : s.overflow.getLast? with
      | none => exact ⟨s, rfl, h, .refl s⟩
      | some data =>
          simp only [rxSendToRuntime, if_neg (show ¬ nks = 0 by omega)]
          cases hsend : sends.headD false with
          | false =>
              exact ⟨{ s with nextRr := s.nextRr + 1 }, rfl, ⟨h.ledger, h.distinct, h.buffers,
                h.prepared, h.kthreads, h.max, h.exited, h.dropped⟩, ⟨rfl, rfl, rfl, rfl, rfl, rfl⟩⟩
          | true =>
              have hover : s.overflow = s.overflow.dropLast ++ [data] :=
                (List.dropLast_append_getLast? data hlast).symm
              obtain ⟨s', hs', hi, hsame⟩ := ih sends.tail
                (drained_inv h hover (Nat.mod_lt s.nextRr.toNat hpos) (s.nextRr + 1))
              exact ⟨s', hs', hi, hsame.priv, hsame.size, hsame.objs, hsame.out, hsame.transmitted,
                hsame.returned⟩

/-! ## Runs -/

/-- The mbufs are in the pool or outside, and the completions of those outside are to be sent. -/
structure SysInv (nks base : ℕ) (s : Completions M) : Prop where
  comp : CompInv nks base s.out s
  owned : (s.objs ++ s.out).Nodup
  size : s.objs.length + s.out.length = s.size
  returned : s.transmitted = s.returned + ↑(s.out.map fun m => (s.priv m).completionData)

/-- What is assumed of the runtime and of the NIC: a buffer is posted again only after its completion
was delivered, and an mbuf is returned once. -/
def Allowed (nks base : ℕ) (s : Completions M) : CompEvent M → Prop
  | .transmit t b => t < nks ∧ b ∈ egressBuffers base nks ∧
      b ∉ s.overflow ++ s.out.map fun m => (s.priv m).completionData
  | .enqueue ms _ => ms.Nodup ∧ ∀ m ∈ ms, m ∈ s.out
  | .park _ _ | .drain _ _ => True

variable [DecidableEq M]

instance (nks base : ℕ) (s : Completions M) : (e : CompEvent M) → Decidable (s.Allowed nks base e)
  | .transmit t b => inferInstanceAs (Decidable (t < nks ∧ b ∈ egressBuffers base nks ∧
      b ∉ s.overflow ++ s.out.map fun m => (s.priv m).completionData))
  | .enqueue ms _ => inferInstanceAs (Decidable (ms.Nodup ∧ ∀ m ∈ ms, m ∈ s.out))
  | .park _ _ | .drain _ _ => inferInstanceAs (Decidable True)

theorem transmit_inv (h : SysInv nks base s) {t b : ℕ} (he : s.Allowed nks base (.transmit t b)) :
    SysInv nks base (s.transmit t b) := by
  obtain ⟨ht, hbuf, hnot⟩ := he
  unfold transmit
  split
  · exact h
  · rename_i m hlast
    have hobjs : s.objs = s.objs.dropLast ++ [m] := (List.dropLast_append_getLast? m hlast).symm
    have howned := h.owned
    rw [hobjs, List.append_assoc] at howned
    have hm : m ∉ s.out := by
      intro hmem
      have hnd := howned.of_append_right
      simp [hmem] at hnd
    have hdata : (s.out.map fun m' =>
        (Function.update s.priv m { p := true, t, completionData := b } m').completionData) =
        s.out.map fun m' => (s.priv m').completionData := by
      apply List.map_congr_left
      intro m' hm'
      rw [Function.update_of_ne (ne_of_mem_of_not_mem hm' hm)]
    have hall : ((m :: s.out).map fun m' =>
        (Function.update s.priv m { p := true, t, completionData := b } m').completionData) =
        b :: s.out.map fun m' => (s.priv m').completionData := by
      rw [List.map_cons, hdata, Function.update_self]
    refine ⟨⟨?_, ?_, ?_, ?_, h.comp.kthreads, h.comp.max, h.comp.exited, h.comp.dropped⟩, howned, ?_, ?_⟩
    · rw [hall, h.comp.ledger, ← Multiset.cons_coe, Multiset.add_cons]
    · rw [hall]
      exact List.nodup_middle.mpr (List.nodup_cons.mpr ⟨hnot, h.comp.distinct⟩)
    · rw [hall]
      intro b' hb'
      rcases List.mem_cons.mp (List.perm_middle.mem_iff.mp hb') with rfl | hb'
      · exact hbuf
      · exact h.comp.buffers b' hb'
    · intro m' hm'
      by_cases heq : m' = m
      · simp [heq, ht]
      · simpa [heq] using h.comp.prepared m' ((List.mem_cons.mp hm').resolve_left heq)
    · have hsize := h.size
      rw [hobjs] at hsize
      simp only [List.length_append, List.length_cons, List.length_nil] at hsize ⊢
      omega
    · rw [hall, h.returned, ← Multiset.cons_coe, Multiset.add_cons]

theorem enqueue_inv (hpos : 0 < nks) (hnks : nks ≤ usedCpus) (h : SysInv nks base s) {ms : List M}
    (sends : List Bool) (he : s.Allowed nks base (.enqueue ms sends)) :
    ∃ s', s.completionEnqueue nks ms sends = .ok s' ∧ SysInv nks base s' := by
  obtain ⟨hnd, hsub⟩ := he
  have hperm : (ms ++ s.out.diff ms).Perm s.out :=
    List.subperm_append_diff_self_of_count_le
      (List.subperm_ext_iff.mp (List.subperm_of_subset hnd hsub))
  have hlen := hperm.length_eq
  have hsize := h.size
  rw [List.length_append] at hlen
  have hroom : ¬ s.size < s.objs.length + ms.length := by omega
  obtain ⟨u, hu, hi, hsame⟩ := sendAll_inv hpos hnks sends (perm_inv h.comp hperm.symm)
  refine ⟨_, by rw [completionEnqueue, if_neg hroom, hu], ?_⟩
  refine ⟨?_, ?_, ?_, ?_⟩
  · rw [hsame.out]
    exact ⟨hi.ledger, hi.distinct, hi.buffers, hi.prepared, hi.kthreads, hi.max, hi.exited, hi.dropped⟩
  · rw [hsame.objs, hsame.out, List.append_assoc]
    exact ((hperm.append_left _).nodup_iff).mpr h.owned
  · simp only [hsame.objs, hsame.out, hsame.size, List.length_append]
    omega
  · have hmap := Multiset.coe_eq_coe.mpr (hperm.map fun m => (s.priv m).completionData)
    rw [List.map_append, ← Multiset.coe_add] at hmap
    rw [hsame.transmitted, hsame.returned, hsame.out, hsame.priv, h.returned, Multiset.add_assoc, hmap]

theorem compStep_inv (hpos : 0 < nks) (hnks : nks ≤ usedCpus) (h : SysInv nks base s) {e : CompEvent M}
    (he : s.Allowed nks base e) : ∃ s', compStep nks s e = .ok s' ∧ SysInv nks base s' := by
  cases e with
  | transmit t b => exact ⟨_, rfl, transmit_inv h he⟩
  | park t b =>
      have hc := h.comp
      exact ⟨_, rfl, ⟨hc.ledger, hc.distinct, hc.buffers, hc.prepared, hc.kthreads, hc.max, hc.exited,
        hc.dropped⟩, h.owned, h.size, h.returned⟩
  | enqueue ms sends => exact enqueue_inv hpos hnks h sends he
  | drain n sends =>
      obtain ⟨s', hs', hi, hsame⟩ := txDrainCompletions_inv hpos sends h.comp
      refine ⟨s', hs', ?_, ?_, ?_, ?_⟩
      · rw [hsame.out]
        exact hi
      · rw [hsame.objs, hsame.out]
        exact h.owned
      · rw [hsame.objs, hsame.out, hsame.size]
        exact h.size
      · rw [hsame.transmitted, hsame.returned, hsame.out, hsame.priv]
        exact h.returned

/-- The pool has all its mbufs, and nothing was sent. -/
def start (nks : ℕ) (objs : List M) (priv : M → TxPriv) (parked : ℕ → Bool) (nextRr : BitVec 32) :
    Completions M where
  priv := priv
  size := objs.length
  objs := objs
  out := []
  exited := false
  parked := parked
  nextRr := nextRr
  maxOverflows := Skyloft.maxOverflows nks
  overflow := []
  delivered := []
  transmitted := 0
  returned := 0
  dropped := false

/-- What the completions guarantee at any time. -/
structure Exact (nks : ℕ) (s : Completions M) : Prop where
  /-- a packet that was transmitted has been returned or is outside the pool -/
  transmitted : s.transmitted = s.returned + ↑(s.out.map fun m => (s.priv m).completionData)
  /-- one that was returned is delivered once or in the overflow queue -/
  returned : s.returned = ↑(s.delivered.map Prod.snd) + ↑s.overflow
  kthreads : ∀ d ∈ s.delivered, d.1 < nks
  /-- the overflow queue is never full when a completion is to be kept -/
  dropped : s.dropped = false

/-- Whatever receive queues are full, each completion is delivered once or in the overflow queue, and
none is ever given up. -/
theorem completions_exact (hpos : 0 < nks) (hnks : nks ≤ usedCpus) (base : ℕ) {objs : List M}
    (hobjs : objs.Nodup) (priv : M → TxPriv) (parked : ℕ → Bool) (nextRr : BitVec 32)
    (es : List (CompEvent M))
    (hes : Along (compStep nks) (Allowed nks base) (start nks objs priv parked nextRr) es) :
    ∃ s, exec (compStep nks) (start nks objs priv parked nextRr) es = .ok s ∧ s.Exact nks := by
  have hstart : SysInv nks base (start nks objs priv parked nextRr) := by
    refine ⟨⟨?_, ?_, ?_, ?_, ?_, rfl, rfl, rfl⟩, ?_, rfl, rfl⟩ <;> simp [start, hobjs]
  obtain ⟨s, hs, hi⟩ := exec_ok (I := SysInv nks base) (fun _ _ h he => compStep_inv hpos hnks h he)
    hstart hes
  refine ⟨s, hs, hi.returned, ?_, hi.comp.kthreads, hi.comp.dropped⟩
  have hledger := hi.comp.ledger
  rw [hi.returned] at hledger
  exact Multiset.add_left_inj.mp hledger

/-- Two kthreads: the receive queue of the first is full for a while, the second is parked. -/
def compRun : List (CompEvent ℕ) :=
  [.transmit 0 0, .transmit 1 2048, .park 1 true, .enqueue [3, 2] [false, true], .transmit 1 4096,
    .drain 64 [false], .drain 64 [true], .transmit 0 0]

theorem completions_exact_compRun :
    Along (compStep 2) (Allowed 2 0)
      (start 2 [1, 2, 3] (fun _ => { p := false, t := 0, completionData := 0 }) (fun _ => false) 5)
      compRun ∧
    ∃ s, exec (compStep 2)
      (start 2 [1, 2, 3] (fun _ => { p := false, t := 0, completionData := 0 }) (fun _ => false) 5)
      compRun = .ok s ∧ s.Exact 2 :=
  have hes : Along (compStep 2) (Allowed 2 0)
      (start 2 [1, 2, 3] (fun _ => { p := false, t := 0, completionData := 0 }) (fun _ => false) 5)
      compRun := by
    decide +kernel
  ⟨hes, completions_exact (by decide) (by decide) 0 (by decide) _ _ _ _ hes⟩

end Completions

end Skyloft
