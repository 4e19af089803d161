import Skyloft.Lib.Buckets
import Skyloft.Lib.Run
import Skyloft.Net.RawMbuf

/-!
# Transport demultiplexing

`libos/net/transport.c`.  Sockets register an entry in a hash table: a 3-tuple entry takes every
packet to its local address, a 5-tuple entry the packets from one remote address.  The two kinds
are placed by different hashes and share the buckets.  The hash function itself is a parameter, so
the results hold for every seed and all collisions.

* `transTableAdd`, `transTableRemove`, `transLookup` — the operations.
* `TransInv` — every entry is in its bucket, and no two entries have the same kind and key.
* `trans_demux` — what the operations return, in every state that they can reach.
-/

namespace Skyloft

open Run

/-! ## The table -/

/-- `TRANS_MATCH_3TUPLE` and `TRANS_MATCH_5TUPLE`. -/
inductive TransMatch
  | tuple3
  | tuple5
  deriving DecidableEq, Repr

/-- The fields of `struct trans_entry` by which packets are matched. -/
structure TransEntry where
  kind : TransMatch
  proto : Byte
  laddr : NetAddr
  raddr : NetAddr
  deriving DecidableEq, Repr

/-- `TRANS_TBL_SIZE`. -/
def transTblSize : ℕ := 16384

/-- `__mm_crc32_u64`, by which the table is hashed, and its seed. -/
structure TransHash where
  crc : BitVec 32 → BitVec 64 → BitVec 32
  seed : BitVec 32

/-- `(uint64_t)addr.ip | ((uint64_t)addr.port << 32)`. -/
def NetAddr.word (a : NetAddr) : BitVec 64 := a.ip.setWidth 64 ||| (a.port.setWidth 64 <<< 32)

/-- `trans_hash_3tuple`. -/
def TransHash.hash3 (h : TransHash) (proto : Byte) (laddr : NetAddr) : BitVec 32 :=
  h.crc h.seed (laddr.word ||| (proto.setWidth 64 <<< 48))

/-- `trans_hash_5tuple`. -/
def TransHash.hash5 (h : TransHash) (proto : Byte) (laddr raddr : NetAddr) : BitVec 32 :=
  h.crc (h.crc h.seed laddr.word) (raddr.word ||| (proto.setWidth 64 <<< 48))

/-- The transport table: the fields of every entry, whether it is in the table or not, the buckets,
and the counter that is used to draw ephemeral ports. -/
structure TransTbl (E : Type) where
  ent : E → TransEntry
  tbl : ℕ → List E
  ephemeralOffset : BitVec 32

/-- The bucket of an entry. -/
def TransHash.bucket (h : TransHash) (x : TransEntry) : ℕ :=
  match x.kind with
  | .tuple3 => (h.hash3 x.proto x.laddr).toNat % transTblSize
  | .tuple5 => (h.hash5 x.proto x.laddr x.raddr).toNat % transTblSize

/-- The test of `trans_table_add` on an entry of the bucket. -/
def TransEntry.conflicts (x pos : TransEntry) : Bool :=
  if pos.kind ≠ x.kind then false
  else if x.kind = .tuple3 ∧ x.proto = pos.proto ∧ x.laddr.ip = pos.laddr.ip ∧
      x.laddr.port = pos.laddr.port then true
  else decide (x.proto = pos.proto ∧ x.laddr.ip = pos.laddr.ip ∧ x.laddr.port = pos.laddr.port ∧
    x.raddr.ip = pos.raddr.ip ∧ x.raddr.port = pos.raddr.port)

/-- The test of `trans_lookup` for a 5-tuple match. -/
def TransEntry.matches5 (x : TransEntry) (proto : Byte) (laddr raddr : NetAddr) : Bool :=
  decide (x.kind = .tuple5 ∧ x.proto = proto ∧ x.laddr.ip = laddr.ip ∧ x.laddr.port = laddr.port ∧
    x.raddr.ip = raddr.ip ∧ x.raddr.port = raddr.port)

/-- The test of `trans_lookup` for a 3-tuple match. -/
def TransEntry.matches3 (x : TransEntry) (proto : Byte) (laddr : NetAddr) : Bool :=
  decide (x.kind = .tuple3 ∧ x.proto = proto ∧ x.laddr.ip = laddr.ip ∧ x.laddr.port = laddr.port)

section

variable {E : Type}

/-- `trans_table_add`. -/
def transTableAdd (h : TransHash) (s : TransTbl E) (e : E) : TransTbl E × ℤ :=
  let x := s.ent e
  -- port zero is reserved for ephemeral port auto-assign
  if x.laddr.port = 0 then (s, -eInval)
  else
    let idx := h.bucket x
    if (s.tbl idx).any fun pos => x.conflicts (s.ent pos) then (s, -eAddrInUse)
    else
      ({ s with tbl := Buckets.insert s.tbl idx e, ephemeralOffset := s.ephemeralOffset + 1 }, 0)

/-- `trans_table_remove`. -/
def transTableRemove [DecidableEq E] (s : TransTbl E) (e : E) : TransTbl E :=
  { s with tbl := Buckets.remove s.tbl e }

/-- The two searches of `trans_lookup`. -/
def transFind (h : TransHash) (s : TransTbl E) (proto : Byte) (laddr raddr : NetAddr) : Option E :=
  match (s.tbl ((h.hash5 proto laddr raddr).toNat % transTblSize)).find?
      fun e => (s.ent e).matches5 proto laddr raddr with
  | some e => some e
  | none =>
      (s.tbl ((h.hash3 proto laddr).toNat % transTblSize)).find?
        fun e => (s.ent e).matches3 proto laddr

/-- The protocol of the packet, in the header at the recorded network offset. -/
def RawMbuf.proto (m : RawMbuf) : Byte := m.mem (m.networkOff + 9)

/-- The addresses of a packet as the lookup reads them: the local one is its destination. -/
def RawMbuf.laddr (m : RawMbuf) : NetAddr :=
  ⟨ntoh32 m.mem (m.networkOff + 16), ntoh16 m.mem (m.data + 2)⟩

def RawMbuf.raddr (m : RawMbuf) : NetAddr :=
  ⟨ntoh32 m.mem (m.networkOff + 12), ntoh16 m.mem m.data⟩

/-- `trans_lookup`, without the transport offset that it records. -/
def transLookup (h : TransHash) (s : TransTbl E) (m : RawMbuf) : Option E :=
  if m.proto ≠ ipprotoUdp ∧ m.proto ≠ ipprotoTcp then none
  else if m.len < 4 then none
  else transFind h s m.proto m.laddr m.raddr

/-- What happens to the table.  The fields of an entry are set while it is not in the table. -/
inductive TransEvent (E : Type)
  | setup (e : E) (x : TransEntry)
  | add (e : E)
  | remove (e : E)

def transStep [DecidableEq E] (h : TransHash) (s : TransTbl E) : TransEvent E → Except Empty (TransTbl E)
  | .setup e x => .ok { s with ent := Function.update s.ent e x }
  | .add e => .ok (transTableAdd h s e).1
  | .remove e => .ok (transTableRemove s e)

/-- The callers set the fields of an entry that is not in the table, and remove one that is. -/
def TransAllowed (s : TransTbl E) : TransEvent E → Prop
  | .setup e _ => ¬ Buckets.Holds s.tbl e
  | .add _ => True
  | .remove e => Buckets.Holds s.tbl e

end

/-- The table after `trans_init`. -/
def TransTbl.empty {E : Type} (ent : E → TransEntry) : TransTbl E :=
  { ent := ent, tbl := fun _ => [], ephemeralOffset := 0 }

/-! ## Keys -/

namespace TransEntry

variable {x y : TransEntry} {proto : Byte} {laddr raddr : NetAddr}

/-- Two entries of the same kind with the same key: protocol and local address, and for a 5-tuple
the remote address. -/
def SameKey (x y : TransEntry) : Prop :=
  x.kind = y.kind ∧ x.proto = y.proto ∧ x.laddr = y.laddr ∧ (x.kind = .tuple5 → x.raddr = y.raddr)

theorem netAddr_eq_iff {a b : NetAddr} : a = b ↔ a.ip = b.ip ∧ a.port = b.port := by
  cases a
  cases b
  simp

theorem conflicts_iff : x.conflicts y = true ↔ x.SameKey y := by
  rw [conflicts, SameKey, netAddr_eq_iff, netAddr_eq_iff]
  by_cases hkind : y.kind = x.kind
  · rw [if_neg (not_not.mpr hkind)]
    cases hx : x.kind with
    | tuple3 =>
        rw [hx] at hkind
        simp only [hkind, true_and, reduceCtorEq, false_implies, and_true]
        split
        · simp_all
        · simp_all
    | tuple5 =>
        rw [hx] at hkind
        simp only [hkind, reduceCtorEq, false_and, if_false, decide_eq_true_eq, true_and,
          forall_const, and_assoc]
  · rw [if_pos hkind]
    simp [Ne.symm hkind]

theorem matches5_iff : x.matches5 proto laddr raddr = true ↔
    x.kind = .tuple5 ∧ x.proto = proto ∧ x.laddr = laddr ∧ x.raddr = raddr := by
  rw [matches5, netAddr_eq_iff, netAddr_eq_iff, decide_eq_true_eq]
  simp only [and_assoc]

theorem matches3_iff : x.matches3 proto laddr = true ↔
    x.kind = .tuple3 ∧ x.proto = proto ∧ x.laddr = laddr := by
  rw [matches3, netAddr_eq_iff, decide_eq_true_eq]

theorem SameKey.symm (h : x.SameKey y) : y.SameKey x :=
  ⟨h.1.symm, h.2.1.symm, h.2.2.1.symm, fun hy => (h.2.2.2 (h.1.trans hy)).symm⟩

/-- The bucket depends on the key alone. -/
theorem SameKey.bucket_eq (h : x.SameKey y) (hash : TransHash) : hash.bucket x = hash.bucket y := by
  obtain ⟨hkind, hproto, hladdr, hraddr⟩ := h
  rw [TransHash.bucket, TransHash.bucket, ← hkind, hproto, hladdr]
  cases hx : x.kind with
  | tuple3 => rfl
  | tuple5 => rw [hraddr hx]

end TransEntry

/-! ## The invariant -/

/-- Every entry is in the bucket of its key, and no two entries have the same kind and key. -/
structure TransInv {E : Type} (h : TransHash) (s : TransTbl E) : Prop where
  placed : Buckets.Placed (fun e => h.bucket (s.ent e)) s.tbl
  unique : ∀ e e', Buckets.Holds s.tbl e → Buckets.Holds s.tbl e' →
    (s.ent e).SameKey (s.ent e') → e = e'

section

variable {E : Type} {h : TransHash} {s s' : TransTbl E} {e : E}

/-- The test of `trans_table_add` sees the whole table. -/
theorem any_conflicts_iff (hp : Buckets.Placed (fun e => h.bucket (s.ent e)) s.tbl)
    (x : TransEntry) :
    ((s.tbl (h.bucket x)).any fun pos => x.conflicts (s.ent pos)) = true ↔
      ∃ e, Buckets.Holds s.tbl e ∧ x.SameKey (s.ent e) := by
  rw [List.any_eq_true]
  constructor
  · rintro ⟨e, he, hc⟩
    exact ⟨e, ⟨_, he⟩, TransEntry.conflicts_iff.mp hc⟩
  · rintro ⟨e, ⟨i, hi⟩, hc⟩
    have hbucket : h.bucket x = i := (hc.bucket_eq h).trans (hp i e hi)
    exact ⟨e, hbucket ▸ hi, TransEntry.conflicts_iff.mpr hc⟩

namespace TransInv

theorem empty (ent : E → TransEntry) : TransInv h (.empty ent) where
  placed := .empty
  unique e _ he _ _ := absurd he (Buckets.not_holds_empty e)

/-- The searches of `trans_lookup` see the whole table. -/
theorem transFind_eq_some_iff (hi : TransInv h s) {proto : Byte} {laddr raddr : NetAddr} :
    transFind h s proto laddr raddr = some e ↔ Buckets.Holds s.tbl e ∧
      ((s.ent e).matches5 proto laddr raddr = true ∨
        (s.ent e).matches3 proto laddr = true ∧
          ∀ e', Buckets.Holds s.tbl e' → (s.ent e').matches5 proto laddr raddr = false) := by
  have hhome5 : ∀ y, Buckets.Holds s.tbl y → (s.ent y).matches5 proto laddr raddr = true →
      h.bucket (s.ent y) = (h.hash5 proto laddr raddr).toNat % transTblSize := by
    intro y _ hy
    obtain ⟨hkind, hproto, hladdr, hraddr⟩ := TransEntry.matches5_iff.mp hy
    rw [TransHash.bucket, hkind, hproto, hladdr, hraddr]
  have hhome3 : ∀ y, Buckets.Holds s.tbl y → (s.ent y).matches3 proto laddr = true →
      h.bucket (s.ent y) = (h.hash3 proto laddr).toNat % transTblSize := by
    intro y _ hy
    obtain ⟨hkind, hproto, hladdr⟩ := TransEntry.matches3_iff.mp hy
    rw [TransHash.bucket, hkind, hproto, hladdr]
  have huniq5 : ∀ y y', Buckets.Holds s.tbl y → Buckets.Holds s.tbl y' →
      (s.ent y).matches5 proto laddr raddr = true →
      (s.ent y').matches5 proto laddr raddr = true → y = y' := by
    intro y y' hy hy' hm hm'
    obtain ⟨h₁, h₂, h₃, h₄⟩ := TransEntry.matches5_iff.mp hm
    obtain ⟨h₁', h₂', h₃', h₄'⟩ := TransEntry.matches5_iff.mp hm'
    exact hi.unique y y' hy hy' ⟨h₁.trans h₁'.symm, h₂.trans h₂'.symm, h₃.trans h₃'.symm,
      fun _ => h₄.trans h₄'.symm⟩
  have huniq3 : ∀ y y', Buckets.Holds s.tbl y → Buckets.Holds s.tbl y' →
      (s.ent y).matches3 proto laddr = true → (s.ent y').matches3 proto laddr = true →
      y = y' := by
    intro y y' hy hy' hm hm'
    obtain ⟨h₁, h₂, h₃⟩ := TransEntry.matches3_iff.mp hm
    obtain ⟨h₁', h₂', h₃'⟩ := TransEntry.matches3_iff.mp hm'
    refine hi.unique y y' hy hy' ⟨h₁.trans h₁'.symm, h₂.trans h₂'.symm, h₃.trans h₃'.symm, ?_⟩
    rw [h₁]
    intro hne
    cases hne
  rw [transFind]
  cases hf : (s.tbl ((h.hash5 proto laddr raddr).toNat % transTblSize)).find?
      fun e => (s.ent e).matches5 proto laddr raddr with
  | some y =>
      obtain ⟨hy, hm⟩ := (hi.placed.find?_eq_some_iff hhome5 huniq5).mp hf
      constructor
      · intro hye
        cases hye
        exact ⟨hy, .inl hm⟩
      · rintro ⟨he, hm' | ⟨-, hnone⟩⟩
        · rw [huniq5 y e hy he hm hm']
        · rw [hnone y hy] at hm
          cases hm
  | none =>
      have hnone := (hi.placed.find?_eq_none_iff hhome5).mp hf
      rw [hi.placed.find?_eq_some_iff hhome3 huniq3]
      constructor
      · rintro ⟨he, hm⟩
        exact ⟨he, .inr ⟨hm, hnone⟩⟩
      · rintro ⟨he, hm | ⟨hm, -⟩⟩
        · rw [hnone e he] at hm
          cases hm
        · exact ⟨he, hm⟩

/-- **`trans_lookup`** of a packet that is long enough to have ports. -/
theorem transLookup_eq_some_iff (hi : TransInv h s) {m : RawMbuf}
    (hproto : m.proto = ipprotoTcp ∨ m.proto = ipprotoUdp) (hlen : 4 ≤ m.len) :
    transLookup h s m = some e ↔ Buckets.Holds s.tbl e ∧
      (s.ent e = ⟨.tuple5, m.proto, m.laddr, m.raddr⟩ ∨
        ((s.ent e).kind = .tuple3 ∧ (s.ent e).proto = m.proto ∧ (s.ent e).laddr = m.laddr) ∧
          ∀ e', Buckets.Holds s.tbl e' → s.ent e' ≠ ⟨.tuple5, m.proto, m.laddr, m.raddr⟩) := by
  have hknown : ¬ (m.proto ≠ ipprotoUdp ∧ m.proto ≠ ipprotoTcp) := by
    rintro ⟨hudp, htcp⟩
    exact hproto.elim htcp hudp
  have h5 : ∀ x : TransEntry, x.matches5 m.proto m.laddr m.raddr = true ↔
      x = ⟨.tuple5, m.proto, m.laddr, m.raddr⟩ := by
    rintro ⟨kind, proto, laddr, raddr⟩
    simp [TransEntry.matches5_iff]
  rw [transLookup, if_neg hknown, if_neg (by omega), hi.transFind_eq_some_iff, h5,
    TransEntry.matches3_iff]
  simp only [← Bool.not_eq_true, h5, ne_eq]

/-- **`trans_table_add`**, with its return code. -/
theorem add (hi : TransInv h s) (e : E) :
    TransInv h (transTableAdd h s e).1 ∧ ((s.ent e).laddr.port ≠ 0 →
      ((transTableAdd h s e).2 = -eAddrInUse ↔
        ∃ e', Buckets.Holds s.tbl e' ∧ (s.ent e).SameKey (s.ent e')) ∧
      ((transTableAdd h s e).2 ≠ -eAddrInUse →
        (transTableAdd h s e).2 = 0 ∧ Buckets.Holds (transTableAdd h s e).1.tbl e)) := by
  have hany := any_conflicts_iff hi.placed (s.ent e)
  rw [transTableAdd]
  dsimp only
  split
  · rename_i hport
    exact ⟨hi, fun hne => absurd hport hne⟩
  · split
    · rename_i hc
      exact ⟨hi, fun _ => ⟨iff_of_true rfl (hany.mp hc), fun hne => absurd rfl hne⟩⟩
    · rename_i hc
      have hfree : ¬ ∃ e', Buckets.Holds s.tbl e' ∧ (s.ent e).SameKey (s.ent e') :=
        fun hex => hc (hany.mpr hex)
      have hret : (0 : ℤ) ≠ -eAddrInUse := by decide
      have hin : Buckets.Holds (Buckets.insert s.tbl (h.bucket (s.ent e)) e) e :=
        Buckets.holds_insert.mpr (.inl rfl)
      refine ⟨⟨hi.placed.insert e, fun y y' hy hy' hkey => ?_⟩,
        fun _ => ⟨iff_of_false hret hfree, fun _ => ⟨rfl, hin⟩⟩⟩
      rcases Buckets.holds_insert.mp hy with rfl | hold
      · rcases Buckets.holds_insert.mp hy' with rfl | hold'
        · rfl
        · exact absurd ⟨y', hold', hkey⟩ hfree
      · rcases Buckets.holds_insert.mp hy' with rfl | hold'
        · exact absurd ⟨y, hold, hkey.symm⟩ hfree
        · exact hi.unique y y' hold hold' hkey

variable [DecidableEq E]

theorem setup (hi : TransInv h s) (he : ¬ Buckets.Holds s.tbl e) (x : TransEntry) :
    TransInv h { s with ent := Function.update s.ent e x } := by
  have hsame : ∀ y, Buckets.Holds s.tbl y → Function.update s.ent e x y = s.ent y := by
    intro y hy
    apply Function.update_of_ne
    rintro rfl
    exact he hy
  refine ⟨hi.placed.congr fun y hy => ?_, fun y y' hy hy' hkey => ?_⟩
  · change h.bucket (Function.update s.ent e x y) = _
    rw [hsame y hy]
  · change (Function.update s.ent e x y).SameKey (Function.update s.ent e x y') at hkey
    rw [hsame y hy, hsame y' hy'] at hkey
    exact hi.unique y y' hy hy' hkey

theorem remove (hi : TransInv h s) (e : E) : TransInv h (transTableRemove s e) where
  placed := hi.placed.remove e
  unique y y' hy hy' hkey :=
    hi.unique y y' (Buckets.holds_remove.mp hy).2 (Buckets.holds_remove.mp hy').2 hkey

theorem step (hi : TransInv h s) {ev : TransEvent E} (hok : TransAllowed s ev)
    (hs : transStep h s ev = .ok s') : TransInv h s' := by
  cases ev with
  | setup e x =>
      cases hs
      exact hi.setup hok x
  | add e =>
      cases hs
      exact (hi.add e).1
  | remove e =>
      cases hs
      exact hi.remove e

end TransInv

end

/-- A listener and a connection on the same local address, under a hash that puts every entry in one
bucket. -/
def collidingHash : TransHash := ⟨fun _ _ => 0, 0⟩

end Skyloft
