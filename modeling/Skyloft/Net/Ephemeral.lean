import Skyloft.Net.Transport

/-!
# Ephemeral ports

`trans_table_add_with_ephemeral_port` of `libos/net/transport.c`.  The search begins at a port that
depends on the hash of the addresses and on the number of entries added so far, and goes once around.

* `transTableAddWithEphemeralPort` — the operation, with the ports that it tried.
* `mem_ephemeralPorts`, `nodup_ephemeralPorts` — once around visits every port once.
* `Searched` — how the search ends.
* `ephemeral_ports` — it succeeds exactly when some port is free.
-/

namespace Skyloft

open Run

def minEphemeral : ℕ := 49152
def maxEphemeral : ℕ := 65535

/-- `num_ephemeral` -/
def numEphemeral : ℕ := maxEphemeral - minEphemeral + 1

/-- The port that is tried when `next` ports were tried before. -/
def ephemeralPort (offset : BitVec 16) (next : ℕ) : BitVec 16 :=
  BitVec.ofNat 16 (minEphemeral + (next + offset.toNat) % numEphemeral)

/-- Another local port. -/
def TransEntry.withPort (x : TransEntry) (port : BitVec 16) : TransEntry :=
  { x with laddr := { x.laddr with port := port } }

/-- What the search returns, and the ports for which it called `trans_table_add`. -/
structure EphemeralResult (E : Type) where
  tbl : TransTbl E
  ret : ℤ
  tried : List (BitVec 16)

section

variable {E : Type} [DecidableEq E]

/-- `e->laddr.port = port` -/
def TransTbl.setPort (s : TransTbl E) (e : E) (port : BitVec 16) : TransTbl E :=
  { s with ent := Function.update s.ent e ((s.ent e).withPort port) }

/-- The loop of `trans_table_add_with_ephemeral_port`. -/
def ephemeralLoop (h : TransHash) (e : E) (offset : BitVec 16) (s : TransTbl E) (next : ℕ) :
    EphemeralResult E :=
  if next < numEphemeral then
    let port := ephemeralPort offset next
    let r := transTableAdd h (s.setPort e port) e
    if r.2 = 0 then ⟨r.1, 0, [port]⟩
    else
      let rest := ephemeralLoop h e offset r.1 (next + 1)
      { rest with tried := port :: rest.tried }
  else ⟨s, -eAddrNotAvail, []⟩
termination_by numEphemeral - next

/-- `trans_table_add_with_ephemeral_port`. -/
def transTableAddWithEphemeralPort (h : TransHash) (s : TransTbl E) (e : E) : EphemeralResult E :=
  if (s.ent e).kind ≠ .tuple5 then ⟨s, -eInval, []⟩
  else
    let s₀ := s.setPort e 0
    let x := s₀.ent e
    let offset := (h.hash5 x.proto x.laddr x.raddr + s₀.ephemeralOffset).setWidth 16
    ephemeralLoop h e offset s₀ 0

end

/-! ## Once around -/

/-- `[MIN_EPHEMERAL, MAX_EPHEMERAL]` -/
def IsEphemeral (port : BitVec 16) : Prop := minEphemeral ≤ port.toNat ∧ port.toNat ≤ maxEphemeral

/-- The ports that a full search tries, from the `next`th on. -/
def ephemeralPorts (offset : BitVec 16) (next : ℕ) : List (BitVec 16) :=
  (List.range' next (numEphemeral - next)).map (ephemeralPort offset)

theorem toNat_ephemeralPort (offset : BitVec 16) (next : ℕ) :
    (ephemeralPort offset next).toNat = 49152 + (next + offset.toNat) % 16384 := by
  simp only [ephemeralPort, minEphemeral, numEphemeral, maxEphemeral, BitVec.toNat_ofNat]
  omega

theorem isEphemeral_ephemeralPort (offset : BitVec 16) (next : ℕ) :
    IsEphemeral (ephemeralPort offset next) := by
  rw [IsEphemeral, toNat_ephemeralPort, minEphemeral, maxEphemeral]
  omega

theorem ephemeralPort_ne_zero (offset : BitVec 16) (next : ℕ) : ephemeralPort offset next ≠ 0 := by
  intro hzero
  have hnat := toNat_ephemeralPort offset next
  rw [hzero] at hnat
  change 0 = _ at hnat
  omega

/-- Two tries that are less than a turn apart are different. -/
theorem ephemeralPort_inj (offset : BitVec 16) {i j : ℕ} (hi : i < numEphemeral)
    (hj : j < numEphemeral) (hij : ephemeralPort offset i = ephemeralPort offset j) : i = j := by
  have hnat := congrArg BitVec.toNat hij
  rw [toNat_ephemeralPort, toNat_ephemeralPort] at hnat
  simp only [numEphemeral, maxEphemeral, minEphemeral] at hi hj
  omega

theorem nodup_ephemeralPorts (offset : BitVec 16) : (ephemeralPorts offset 0).Nodup := by
  refine List.Nodup.map_on ?_ List.nodup_range'
  intro i hi j hj
  rw [List.mem_range'_1] at hi hj
  exact ephemeralPort_inj offset (by omega) (by omega)

theorem mem_ephemeralPorts (offset : BitVec 16) (port : BitVec 16) :
    port ∈ ephemeralPorts offset 0 ↔ IsEphemeral port := by
  rw [ephemeralPorts, List.mem_map]
  constructor
  · rintro ⟨next, -, rfl⟩
    exact isEphemeral_ephemeralPort offset next
  · rintro ⟨hmin, hmax⟩
    -- the distance from the first port to this one, going up and around
    refine ⟨(port.toNat + 65536 - offset.toNat) % 16384, ?_, ?_⟩
    · rw [List.mem_range'_1, numEphemeral, maxEphemeral, minEphemeral]
      omega
    · apply BitVec.eq_of_toNat_eq
      rw [minEphemeral] at hmin
      have hoff := offset.isLt
      have hport := port.isLt
      rw [toNat_ephemeralPort]
      omega

theorem ephemeralPorts_cons {next : ℕ} (hnext : next < numEphemeral) (offset : BitVec 16) :
    ephemeralPorts offset next = ephemeralPort offset next :: ephemeralPorts offset (next + 1) := by
  have hleft : numEphemeral - next = numEphemeral - (next + 1) + 1 := by omega
  rw [ephemeralPorts, hleft, List.range'_succ, List.map_cons, ephemeralPorts]

/-! ## The search -/

section

variable {E : Type} {h : TransHash} {s s' : TransTbl E} {e : E} {port : BitVec 16}

/-- No entry of the table has the protocol, the local address with this port, and the remote address
of a 5-tuple entry. -/
def TransTbl.PortFree (s : TransTbl E) (x : TransEntry) (port : BitVec 16) : Prop :=
  ∀ e, Buckets.Holds s.tbl e →
    ¬ ((s.ent e).kind = .tuple5 ∧ (s.ent e).proto = x.proto ∧ (s.ent e).laddr.ip = x.laddr.ip ∧
      (s.ent e).laddr.port = port ∧ (s.ent e).raddr = x.raddr)

theorem TransEntry.sameKey_withPort_iff {x y : TransEntry} (hkind : x.kind = .tuple5) :
    (x.withPort port).SameKey y ↔ y.kind = .tuple5 ∧ y.proto = x.proto ∧ y.laddr.ip = x.laddr.ip ∧
      y.laddr.port = port ∧ y.raddr = x.raddr := by
  simp only [SameKey, withPort, hkind, netAddr_eq_iff, eq_comm, forall_const, and_assoc]

variable [DecidableEq E]

@[simp] theorem TransTbl.tbl_setPort : (s.setPort e port).tbl = s.tbl := rfl

@[simp] theorem TransTbl.ephemeralOffset_setPort :
    (s.setPort e port).ephemeralOffset = s.ephemeralOffset := rfl

@[simp] theorem TransTbl.ent_setPort_self :
    (s.setPort e port).ent e = (s.ent e).withPort port := Function.update_self ..

theorem TransTbl.ent_setPort_of_ne {e' : E} (hne : e' ≠ e) :
    (s.setPort e port).ent e' = s.ent e' := Function.update_of_ne hne ..

@[simp] theorem TransTbl.setPort_setPort {port' : BitVec 16} :
    (s.setPort e port).setPort e port' = s.setPort e port' := by
  simp [setPort, TransEntry.withPort]

theorem TransTbl.ent_setPort_of_holds {e' : E} (he : ¬ Buckets.Holds s.tbl e)
    (he' : Buckets.Holds s.tbl e') : (s.setPort e port).ent e' = s.ent e' := by
  apply ent_setPort_of_ne
  rintro rfl
  exact he he'

/-- The port of an entry that is not in the table does not matter to the table. -/
theorem TransTbl.portFree_setPort_iff {port' : BitVec 16} (he : ¬ Buckets.Holds s.tbl e) :
    (s.setPort e port).PortFree ((s.setPort e port).ent e) port' ↔ s.PortFree (s.ent e) port' := by
  rw [PortFree, PortFree]
  refine forall_congr' fun e' => imp_congr_right fun he' => ?_
  rw [ent_setPort_of_holds he he', ent_setPort_self]
  rfl

theorem TransTbl.placed_setPort (hp : Buckets.Placed (fun e => h.bucket (s.ent e)) s.tbl)
    (he : ¬ Buckets.Holds s.tbl e) (port : BitVec 16) :
    Buckets.Placed (fun e' => h.bucket ((s.setPort e port).ent e')) (s.setPort e port).tbl :=
  hp.congr fun e' he' => by rw [ent_setPort_of_holds he he']

/-- What `trans_table_add` does for one port. -/
theorem transTableAdd_setPort (hp : Buckets.Placed (fun e => h.bucket (s.ent e)) s.tbl)
    (he : ¬ Buckets.Holds s.tbl e) (hkind : (s.ent e).kind = .tuple5) (hport : port ≠ 0) :
    (s.PortFree (s.ent e) port ∧
      transTableAdd h (s.setPort e port) e =
        ({ s.setPort e port with
            tbl := Buckets.insert s.tbl (h.bucket ((s.ent e).withPort port)) e
            ephemeralOffset := s.ephemeralOffset + 1 }, 0)) ∨
    (¬ s.PortFree (s.ent e) port ∧
      transTableAdd h (s.setPort e port) e = (s.setPort e port, -eAddrInUse)) := by
  have hany := any_conflicts_iff (TransTbl.placed_setPort hp he port)
    ((s.ent e).withPort port)
  have hfree : s.PortFree (s.ent e) port ↔ ¬ ∃ e', Buckets.Holds (s.setPort e port).tbl e' ∧
      ((s.ent e).withPort port).SameKey ((s.setPort e port).ent e') := by
    rw [TransTbl.PortFree, not_exists]
    refine forall_congr' fun e' => Iff.trans (imp_congr_right fun he' => ?_) not_and.symm
    rw [TransTbl.ent_setPort_of_holds he he', TransEntry.sameKey_withPort_iff hkind]
  rw [hfree, ← hany, transTableAdd]
  simp only [TransTbl.ent_setPort_self]
  rw [if_neg (show ((s.ent e).withPort port).laddr.port ≠ 0 from hport)]
  split
  · rename_i hc
    exact .inr ⟨not_not.mpr hc, rfl⟩
  · rename_i hc
    exact .inl ⟨hc, rfl⟩

/-- How a search ends that starts with the `next`th port. -/
inductive Searched (h : TransHash) (s : TransTbl E) (e : E) (offset : BitVec 16) (next : ℕ) :
    EphemeralResult E → Prop
  /-- It stops at a free port. -/
  | found (tried : List (BitVec 16)) (port : BitVec 16) (hport : IsEphemeral port)
      (hfree : s.PortFree (s.ent e) port) :
      Searched h s e offset next
        ⟨{ s.setPort e port with
            tbl := Buckets.insert s.tbl (h.bucket ((s.ent e).withPort port)) e
            ephemeralOffset := s.ephemeralOffset + 1 }, 0, tried⟩
  /-- It has tried all ports. -/
  | exhausted (ent : E → TransEntry) (hent : ∀ e', e' ≠ e → ent e' = s.ent e')
      (hnone : ∀ port ∈ ephemeralPorts offset next, ¬ s.PortFree (s.ent e) port) :
      Searched h s e offset next
        ⟨{ s with ent := ent }, -eAddrNotAvail, ephemeralPorts offset next⟩

theorem searched_ephemeralLoop (offset : BitVec 16) (next : ℕ) :
    ∀ {s : TransTbl E}, Buckets.Placed (fun e => h.bucket (s.ent e)) s.tbl →
      ¬ Buckets.Holds s.tbl e → (s.ent e).kind = .tuple5 →
      Searched h s e offset next (ephemeralLoop h e offset s next) := by
  -- the induction is on the ports that are left
  induction hleft : numEphemeral - next generalizing next with
  | zero =>
      intro s hp he hkind
      have hports : ephemeralPorts offset next = [] := by rw [ephemeralPorts, hleft]; rfl
      rw [ephemeralLoop, if_neg (by omega), ← hports]
      refine .exhausted s.ent (fun e' _ => rfl) ?_
      rw [hports]
      simp
  | succ left ih =>
      intro s hp he hkind
      have hnext : next < numEphemeral := by omega
      rw [ephemeralLoop, if_pos hnext]
      dsimp only
      rcases transTableAdd_setPort hp he hkind (ephemeralPort_ne_zero offset next) with
        ⟨hfree, hadd⟩ | ⟨hused, hadd⟩
      · rw [hadd, if_pos rfl]
        exact .found _ _ (isEphemeral_ephemeralPort offset next) hfree
      · have hret : -eAddrInUse ≠ 0 := by decide
        rw [hadd, if_neg hret]
        dsimp only
        have hkind' : ((s.setPort e (ephemeralPort offset next)).ent e).kind = .tuple5 := by
          rw [TransTbl.ent_setPort_self]
          exact hkind
        have hrest := ih (next + 1) (by omega)
          (TransTbl.placed_setPort hp he (ephemeralPort offset next)) he hkind'
        generalize ephemeralLoop h e offset (s.setPort e (ephemeralPort offset next)) (next + 1) = r
          at hrest
        cases hrest with
        | found tried port hport hfree =>
            have hfree' := (TransTbl.portFree_setPort_iff he).mp hfree
            have hfound : Searched h s e offset next _ :=
              .found (ephemeralPort offset next :: tried) port hport hfree'
            simpa [TransEntry.withPort] using hfound
        | exhausted ent hent hnone =>
            have hall : ∀ port ∈ ephemeralPorts offset next, ¬ s.PortFree (s.ent e) port := by
              rw [ephemeralPorts_cons hnext]
              intro port hport
              rcases List.mem_cons.mp hport with rfl | hport
              · exact hused
              · exact fun hfree => hnone port hport ((TransTbl.portFree_setPort_iff he).mpr hfree)
            have hent' : ∀ e', e' ≠ e → ent e' = s.ent e' := fun e' hne =>
              (hent e' hne).trans (TransTbl.ent_setPort_of_ne hne)
            have hexh := Searched.exhausted (h := h) ent hent' hall
            rw [ephemeralPorts_cons hnext] at hexh
            exact hexh

theorem searched_transTableAddWithEphemeralPort
    (hp : Buckets.Placed (fun e => h.bucket (s.ent e)) s.tbl) (he : ¬ Buckets.Holds s.tbl e)
    (hkind : (s.ent e).kind = .tuple5) :
    ∃ offset, Searched h (s.setPort e 0) e offset 0 (transTableAddWithEphemeralPort h s e) := by
  rw [transTableAddWithEphemeralPort, if_neg (not_not.mpr hkind)]
  refine ⟨_, searched_ephemeralLoop _ 0 (TransTbl.placed_setPort hp he 0) he ?_⟩
  rw [TransTbl.ent_setPort_self]
  exact hkind

/-- **Ephemeral ports.**  For every table whose entries are in their buckets, every hash and every
5-tuple entry that is not in the table: the search succeeds exactly when some ephemeral port is free
for the protocol, the local and the remote address of the entry; it leaves the entry in the table,
with such a port; and it fails after trying every ephemeral port once, with the table as it was. -/
theorem ephemeral_ports (hp : Buckets.Placed (fun e => h.bucket (s.ent e)) s.tbl)
    (he : ¬ Buckets.Holds s.tbl e) (hkind : (s.ent e).kind = .tuple5) :
    ((transTableAddWithEphemeralPort h s e).ret = 0 ↔
      ∃ port, IsEphemeral port ∧ s.PortFree (s.ent e) port) ∧
    ((transTableAddWithEphemeralPort h s e).ret = 0 →
      ∃ port, IsEphemeral port ∧ s.PortFree (s.ent e) port ∧
        (transTableAddWithEphemeralPort h s e).tbl.ent = (s.setPort e port).ent ∧
        ∀ e', Buckets.Holds (transTableAddWithEphemeralPort h s e).tbl.tbl e' ↔
          e' = e ∨ Buckets.Holds s.tbl e') ∧
    ((transTableAddWithEphemeralPort h s e).ret ≠ 0 →
      (transTableAddWithEphemeralPort h s e).ret = -eAddrNotAvail ∧
      (transTableAddWithEphemeralPort h s e).tried.Nodup ∧
      (∀ port, port ∈ (transTableAddWithEphemeralPort h s e).tried ↔ IsEphemeral port) ∧
      (transTableAddWithEphemeralPort h s e).tbl.tbl = s.tbl ∧
      (transTableAddWithEphemeralPort h s e).tbl.ephemeralOffset = s.ephemeralOffset ∧
      ∀ e', e' ≠ e → (transTableAddWithEphemeralPort h s e).tbl.ent e' = s.ent e') := by
  obtain ⟨offset, hsearch⟩ := searched_transTableAddWithEphemeralPort hp he hkind
  generalize transTableAddWithEphemeralPort h s e = r at hsearch
  cases hsearch with
  | found tried port hport hfree =>
      have hfree' := (TransTbl.portFree_setPort_iff he).mp hfree
      refine ⟨iff_of_true rfl ⟨port, hport, hfree'⟩, fun _ => ⟨port, hport, hfree', ?_, ?_⟩,
        fun hne => absurd rfl hne⟩
      · change ((s.setPort e 0).setPort e port).ent = _
        rw [TransTbl.setPort_setPort]
      · exact fun e' => Buckets.holds_insert
  | exhausted ent hent hnone =>
      have hret : -eAddrNotAvail ≠ 0 := by decide
      have hused : ¬ ∃ port, IsEphemeral port ∧ s.PortFree (s.ent e) port := by
        rintro ⟨port, hport, hfree⟩
        exact hnone port ((mem_ephemeralPorts offset port).mpr hport)
          ((TransTbl.portFree_setPort_iff he).mpr hfree)
      refine ⟨iff_of_false hret hused, fun hzero => absurd hzero hret, fun _ =>
        ⟨rfl, nodup_ephemeralPorts offset, mem_ephemeralPorts offset, rfl, rfl, ?_⟩⟩
      exact fun e' hne => (hent e' hne).trans (TransTbl.ent_setPort_of_ne hne)

end

/-- A connection has the first ephemeral port, and another one to the same address is set up. -/
def firstPortTaken : TransTbl Bool :=
  { ent := fun _ => ⟨.tuple5, ipprotoTcp, ⟨10, 49152⟩, ⟨20, 5000⟩⟩
    tbl := Buckets.insert (fun _ => []) 0 true
    ephemeralOffset := 1 }

theorem ephemeral_ports_first_taken :
    ¬ firstPortTaken.PortFree (firstPortTaken.ent false) 49152 ∧
    (transTableAddWithEphemeralPort collidingHash firstPortTaken false).ret = 0 := by
  have hp : Buckets.Placed (fun e => collidingHash.bucket (firstPortTaken.ent e))
      firstPortTaken.tbl := Buckets.Placed.empty.insert true
  have he : ¬ Buckets.Holds firstPortTaken.tbl false := by
    rw [firstPortTaken, Buckets.holds_insert]
    simp [Buckets.not_holds_empty]
  have hport : IsEphemeral 49153 := by
    rw [IsEphemeral]
    decide
  refine ⟨fun hfree => hfree true ?_ ?_, (ephemeral_ports hp he rfl).1.mpr ⟨49153, hport, ?_⟩⟩
  · exact Buckets.holds_insert.mpr (.inl rfl)
  · exact ⟨rfl, rfl, rfl, rfl, rfl⟩
  · rintro e - ⟨-, -, -, hports, -⟩
    change 49152#16 = 49153#16 at hports
    cases hports

section

variable {E : Type} [DecidableEq E] {h : TransHash} {s s' : TransTbl E} {e : E}

theorem TransInv.setPort (hi : TransInv h s) (he : ¬ Buckets.Holds s.tbl e) (port : BitVec 16) :
    TransInv h (s.setPort e port) := hi.setup he _

/-- The invariant of the table is kept, whatever the outcome. -/
theorem TransInv.addWithEphemeralPort (hi : TransInv h s) (he : ¬ Buckets.Holds s.tbl e) :
    TransInv h (transTableAddWithEphemeralPort h s e).tbl := by
  by_cases hkind : (s.ent e).kind = .tuple5
  · obtain ⟨offset, hsearch⟩ := searched_transTableAddWithEphemeralPort hi.placed he hkind
    generalize transTableAddWithEphemeralPort h s e = r at hsearch
    cases hsearch with
    | found tried port hport hfree =>
        have hset := hi.setPort he 0
        have hadd := ((hset.setPort he port).add e).1
        have hport0 : port ≠ 0 := by
          rintro rfl
          exact absurd hport.1 (by decide)
        have hkind' : ((s.setPort e 0).ent e).kind = .tuple5 := by
          rw [TransTbl.ent_setPort_self]
          exact hkind
        rcases transTableAdd_setPort hset.placed he hkind' hport0 with ⟨-, heq⟩ | ⟨hused, -⟩
        · rw [heq] at hadd
          exact hadd
        · exact absurd hfree hused
    | exhausted ent hent hnone =>
        have hset := hi.setup he (ent e)
        have heq : Function.update s.ent e (ent e) = ent := by
          funext e'
          by_cases hne : e' = e
          · rw [hne, Function.update_self]
          · rw [Function.update_of_ne hne, hent e' hne, TransTbl.ent_setPort_of_ne hne]
        rw [heq] at hset
        exact hset
  · rw [transTableAddWithEphemeralPort, if_pos hkind]
    exact hi

/-- What happens to a table to which entries are also added with a port of its choice. -/
inductive PortEvent (E : Type)
  | table (ev : TransEvent E)
  | addWithEphemeralPort (e : E)

def portStep (h : TransHash) (s : TransTbl E) : PortEvent E → Except Empty (TransTbl E)
  | .table ev => transStep h s ev
  | .addWithEphemeralPort e => .ok (transTableAddWithEphemeralPort h s e).tbl

def PortAllowed (s : TransTbl E) : PortEvent E → Prop
  | .table ev => TransAllowed s ev
  | .addWithEphemeralPort e => ¬ Buckets.Holds s.tbl e

/-- In every state that the table reaches its entries are in their buckets, so that a search for a
port does what `ephemeral_ports` says. -/
theorem transInv_of_portRun {ent : E → TransEntry} {es : List (PortEvent E)}
    (hes : Along (portStep h) PortAllowed (.empty ent) es)
    (hs : exec (portStep h) (.empty ent) es = .ok s) : TransInv h s := by
  refine exec_invariant (fun s ev s' hi hok hstep => ?_) (.empty ent) hes hs
  cases ev with
  | table ev => exact hi.step hok hstep
  | addWithEphemeralPort e =>
      cases hstep
      exact hi.addWithEphemeralPort hok

end

end Skyloft
