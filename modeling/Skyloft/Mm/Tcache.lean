import Mathlib.Algebra.BigOperators.Group.List.Basic
import Mathlib.Algebra.Order.BigOperators.Group.Finset
import Skyloft.Lib.Chain
import Skyloft.Lib.Ledger
import Skyloft.Lib.Run

/-!
# Item caches

A tcache keeps items in magazines of `mag_size` items.  Each CPU has a handle with the magazine
it takes items from and puts items into, and one full magazine behind it; more full magazines
are in a pool that all CPUs share.  Items come from a backend, a magazine at a time, and go back
to it when the pool is reclaimed.

An item that is free carries the pointers of the lists it is in: `next_item` to the rest of its
magazine and, in the first item of a magazine, `next_mag` to the next magazine of the pool.  An
item that is in use is the caller's, who may write over both.

A call runs on one CPU, with preemption disabled, and what it shares is under a lock; here it is
one step.  What the backend answers is part of the call.  A step also records what the call was
given and what it returned.

* `Tcache`, `tcacheAlloc`, `tcacheFree`, `tcacheReclaim` — the cache and its functions.
* `callAlloc`, `callFree`, `callReclaim` — their calls, recorded.
* `Layout`, `TcInv` — which items stand where, and that the pointers say so.
* `tcache_exact` — every item is in one place, and magazines are full.
-/

namespace Skyloft

open Run Chain Ledger

/-! ## The cache -/

/-- `struct tcache` with its handles, and the words the items carry.  The handles of the CPUs are
set up; all have the capacity `mag_size`.  What is recorded is not written by the functions. -/
structure Tcache (I C : Type) where
  nextItem : I → Option I
  nextMag : I → Option I
  rounds : C → ℕ
  loaded : C → Option I
  previous : C → Option I
  sharedMags : Option I
  magsAllocated : ℤ
  /-- the items that callers have -/
  held : Multiset I
  /-- the items that the backend has given out and not got back -/
  out : Multiset I

inductive TcFault
  /-- an assertion of `__tcache_alloc`, `__tcache_free` or `tcache_free_mag` -/
  | assertion
  /-- `NULL` is followed -/
  | null
  /-- more items than `TCACHE_MAX_MAG_SIZE` in a magazine -/
  | overflow
  /-- the pool goes round in a circle -/
  | endless
  deriving DecidableEq

inductive TcEvent (I C : Type)
  /-- `tcache_alloc`; the items that the backend returns if it is asked, unless it fails -/
  | alloc (c : C) (backend : Option (List I))
  | free (c : C) (item : I)
  | reclaim
  /-- a caller writes over an item it has -/
  | write (item : I) (nextItem nextMag : Option I)

/-- `TCACHE_MAX_MAG_SIZE` -/
def maxMagSize : ℕ := 64

namespace Tcache

variable {I C : Type} [DecidableEq I] [DecidableEq C]

/-- `tcache_create` and `tcache_init_percpu` -/
def create (nextItem nextMag : I → Option I) : Tcache I C where
  nextItem := nextItem
  nextMag := nextMag
  rounds _ := 0
  loaded _ := none
  previous _ := none
  sharedMags := none
  magsAllocated := 0
  held := 0
  out := 0

/-- The end of `__tcache_alloc`: the loaded magazine is full, its first item is taken. -/
def takeFirst (magSize : ℕ) (s : Tcache I C) (c : C) : Except TcFault (Option I × Tcache I C) :=
  match s.loaded c with
  | none => .error .null
  | some item =>
      .ok (some item,
        { s with
          rounds := Function.update s.rounds c (magSize - 1)
          loaded := Function.update s.loaded c (s.nextItem item) })

/-- `tcache_alloc_mag`: the items are linked up, the first one is the magazine. -/
def allocMag (s : Tcache I C) (items : List I) : Option I × Tcache I C :=
  (items.head?,
    { s with
      nextItem := link s.nextItem items
      magsAllocated := s.magsAllocated + 1 })

/-- `__tcache_alloc` -/
def allocSlow (magSize : ℕ) (s : Tcache I C) (c : C) (backend : Option (List I)) :
    Except TcFault (Option I × Tcache I C) :=
  if s.rounds c ≠ 0 ∨ s.loaded c ≠ none then .error .assertion
  else
    match s.previous c with
    | some mag =>
        takeFirst magSize
          { s with
            loaded := Function.update s.loaded c (some mag)
            previous := Function.update s.previous c none } c
    | none =>
        match s.sharedMags with
        | some mag =>
            takeFirst magSize
              { s with
                loaded := Function.update s.loaded c (some mag)
                sharedMags := s.nextMag mag } c
        | none =>
            match backend with
            | none => .ok (none, { s with loaded := Function.update s.loaded c none })
            | some items =>
                let r := s.allocMag items
                takeFirst magSize { r.2 with loaded := Function.update s.loaded c r.1 } c

/-- `tcache_alloc` -/
def tcacheAlloc (magSize : ℕ) (s : Tcache I C) (c : C) (backend : Option (List I)) :
    Except TcFault (Option I × Tcache I C) :=
  if s.rounds c = 0 then s.allocSlow magSize c backend
  else
    match s.loaded c with
    | none => .error .null
    | some item =>
        .ok (some item,
          { s with
            rounds := Function.update s.rounds c (s.rounds c - 1)
            loaded := Function.update s.loaded c (s.nextItem item) })

/-- The end of `__tcache_free`: the item starts a new magazine. -/
def startMag (s : Tcache I C) (c : C) (item : I) : Tcache I C :=
  { s with
    rounds := Function.update s.rounds c 1
    loaded := Function.update s.loaded c (some item)
    nextItem := Function.update s.nextItem item none }

/-- `__tcache_free` -/
def freeSlow (magSize : ℕ) (s : Tcache I C) (c : C) (item : I) : Except TcFault (Tcache I C) :=
  if s.rounds c ≠ magSize ∨ s.loaded c = none then .error .assertion
  else
    match s.previous c with
    | none => .ok ({ s with previous := Function.update s.previous c (s.loaded c) }.startMag c item)
    | some mag =>
        .ok ({ s with
          nextMag := Function.update s.nextMag mag s.sharedMags
          sharedMags := some mag
          previous := Function.update s.previous c (s.loaded c) }.startMag c item)

/-- `tcache_free` -/
def tcacheFree (magSize : ℕ) (s : Tcache I C) (c : C) (item : I) : Except TcFault (Tcache I C) :=
  if magSize ≤ s.rounds c then s.freeSlow magSize c item
  else
    .ok { s with
      rounds := Function.update s.rounds c (s.rounds c + 1)
      nextItem := Function.update s.nextItem item (s.loaded c)
      loaded := Function.update s.loaded c (some item) }

/-- The items that `tcache_free_mag` hands to the backend. -/
def magItems (magSize : ℕ) (s : Tcache I C) (hdr : I) : Except TcFault (List I) :=
  match walk s.nextItem maxMagSize (some hdr) with
  | none => .error .overflow
  | some items => if items.length = magSize then .ok items else .error .assertion

/-- The loop of `tcache_reclaim`: the magazines that go back. -/
def drained (magSize : ℕ) (s : Tcache I C) : ℕ → Option I → Except TcFault (List (List I))
  | _, none => .ok []
  | 0, some _ => .error .endless
  | fuel + 1, some hdr =>
      match s.magItems magSize hdr with
      | .error f => .error f
      | .ok items =>
          match s.drained magSize fuel (s.nextMag hdr) with
          | .error f => .error f
          | .ok mags => .ok (items :: mags)

/-- `tcache_reclaim`, and the magazines it returns to the backend. -/
def tcacheReclaim (magSize : ℕ) (s : Tcache I C) : Except TcFault (List (List I) × Tcache I C) :=
  match s.drained magSize s.out.card s.sharedMags with
  | .error f => .error f
  | .ok mags =>
      .ok (mags,
        { s with
          sharedMags := none
          magsAllocated := s.magsAllocated - mags.length })

/-- The words of an item are written over. -/
def write (s : Tcache I C) (item : I) (nextItem nextMag : Option I) : Tcache I C :=
  { s with
    nextItem := Function.update s.nextItem item nextItem
    nextMag := Function.update s.nextMag item nextMag }

/-! ### The calls -/

/-- `tcache_alloc` comes to the case in which it asks the backend. -/
def AsksBackend (s : Tcache I C) (c : C) : Prop :=
  s.rounds c = 0 ∧ s.previous c = none ∧ s.sharedMags = none

instance (s : Tcache I C) (c : C) : Decidable (s.AsksBackend c) :=
  inferInstanceAs (Decidable (_ ∧ _))

/-- The item that a call of `tcache_alloc` returns is the caller's, the items that it asked for are
given out. -/
def callAlloc (magSize : ℕ) (s : Tcache I C) (c : C) (backend : Option (List I)) :
    Except TcFault (Option I × Tcache I C) :=
  (s.tcacheAlloc magSize c backend).map fun r =>
    (r.1, { r.2 with
      held := Multiset.ofList r.1.toList + r.2.held
      out := (if s.AsksBackend c then ↑(backend.getD []) else 0) + r.2.out })

/-- The item that `tcache_free` is given is the caller's no more. -/
def callFree (magSize : ℕ) (s : Tcache I C) (c : C) (item : I) : Except TcFault (Tcache I C) :=
  (s.tcacheFree magSize c item).map fun t => { t with held := t.held.erase item }

/-- The items of the magazines that `tcache_reclaim` returns are the backend's. -/
def callReclaim (magSize : ℕ) (s : Tcache I C) : Except TcFault (List (List I) × Tcache I C) :=
  (s.tcacheReclaim magSize).map fun r => (r.1, { r.2 with out := r.2.out - r.1.flatten })

end Tcache

/-- One call. -/
def tcStep {I C : Type} [DecidableEq I] [DecidableEq C] (magSize : ℕ) (s : Tcache I C) :
    TcEvent I C → Except TcFault (Tcache I C)
  | .alloc c backend => (s.callAlloc magSize c backend).map Prod.snd
  | .free c item => s.callFree magSize c item
  | .reclaim => (s.callReclaim magSize).map Prod.snd
  | .write item nextItem nextMag => .ok (s.write item nextItem nextMag)

/-! ## Where the items are -/

/-- The magazines from a pointer on. -/
def Pooled {I : Type} (nextItem nextMag : I → Option I) : Option I → List (List I) → Prop
  | p, [] => p = none
  | p, mag :: mags =>
      ∃ x, p = some x ∧ Linked nextItem (some x) mag ∧ Pooled nextItem nextMag (nextMag x) mags

/-- The items of the loaded and the previous magazine of each CPU, and of the shared ones. -/
structure Layout (I C : Type) where
  load : C → List I
  prev : C → List I
  pool : List (List I)

namespace Layout

variable {I C : Type}

def setHandle [DecidableEq C] (l : Layout I C) (c : C) (load prev : List I) : Layout I C :=
  { l with load := Function.update l.load c load, prev := Function.update l.prev c prev }

/-- The items of a CPU. -/
def handle (l : Layout I C) (c : C) : Multiset I := ↑(l.load c) + ↑(l.prev c)

variable [Fintype C]

/-- The items in the cache. -/
def cached (l : Layout I C) : Multiset I := (∑ c, l.handle c) + ↑l.pool.flatten

theorem mem_cached {l : Layout I C} {x : I} :
    x ∈ l.cached ↔ (∃ c, x ∈ l.load c ∨ x ∈ l.prev c) ∨ x ∈ l.pool.flatten := by
  simp [cached, handle, Multiset.mem_sum]

/-- One magazine of the pool. -/
theorem cached_cons (l : Layout I C) (mag : List I) :
    ({ l with pool := mag :: l.pool } : Layout I C).cached = l.cached + ↑mag := by
  have hflat : (((mag :: l.pool).flatten : List I) : Multiset I) = ↑l.pool.flatten + ↑mag := by
    rw [List.flatten_cons, ← Multiset.coe_add, add_comm]
  simp only [cached, hflat, ← add_assoc]
  rfl

variable [DecidableEq C]

theorem cached_setHandle (l : Layout I C) (c : C) (load prev : List I) :
    (l.setHandle c load prev).cached + l.handle c = l.cached + (↑load + ↑prev) := by
  have hsum := sum_add_comm_of_eq_off (f := l.handle) (g := (l.setHandle c load prev).handle) c
    (by intro c' hc'; simp [setHandle, handle, hc'])
  have hc : (l.setHandle c load prev).handle c = ↑load + ↑prev := by simp [handle, setHandle]
  rw [hc] at hsum
  calc (l.setHandle c load prev).cached + l.handle c
      = (∑ c', (l.setHandle c load prev).handle c') + l.handle c + ↑l.pool.flatten :=
        add_right_comm _ _ _
    _ = (∑ c', l.handle c') + (↑load + ↑prev) + ↑l.pool.flatten := by rw [hsum]
    _ = l.cached + (↑load + ↑prev) := add_right_comm _ _ _

end Layout

section

variable {I C : Type} {s : Tcache I C} {l : Layout I C}

/-- The pointers follow the layout. -/
structure Wired (s : Tcache I C) (l : Layout I C) : Prop where
  load : ∀ c, Linked s.nextItem (s.loaded c) (l.load c)
  prev : ∀ c, Linked s.nextItem (s.previous c) (l.prev c)
  pool : Pooled s.nextItem s.nextMag s.sharedMags l.pool

/-- The loaded magazines have their rounds, all others are full. -/
structure Sized (magSize : ℕ) (s : Tcache I C) (l : Layout I C) : Prop where
  load : ∀ c, (l.load c).length = s.rounds c
  rounds : ∀ c, s.rounds c ≤ magSize
  prev : ∀ c, l.prev c = [] ∨ (l.prev c).length = magSize
  pool : ∀ mag ∈ l.pool, mag.length = magSize

/-- Every item that the backend has given out is in one place. -/
structure TcInv [Fintype C] (magSize : ℕ) (s : Tcache I C) (l : Layout I C) : Prop where
  wired : Wired s l
  sized : Sized magSize s l
  ledger : l.cached + s.held = s.out
  nodup : s.out.Nodup

theorem Pooled.congr {nextItem nextMag nextItem' nextMag' : I → Option I} :
    ∀ {mags : List (List I)} {p : Option I}, Pooled nextItem nextMag p mags →
    (∀ x ∈ mags.flatten, nextItem' x = nextItem x) → (∀ x ∈ mags.flatten, nextMag' x = nextMag x) →
    Pooled nextItem' nextMag' p mags := by
  intro mags
  induction mags with
  | nil => intro p h _ _; exact h
  | cons mag mags ih =>
      intro p h hitem hmag
      obtain ⟨x, hp, hlink, hrest⟩ := h
      have hx : x ∈ mag := by
        obtain ⟨xs, rfl, -⟩ := hlink.eq_cons
        exact List.mem_cons_self
      simp only [List.flatten_cons, List.mem_append] at hitem hmag
      refine ⟨x, hp, hlink.congr fun y hy => hitem y (.inl hy), ?_⟩
      rw [hmag x (.inl hx)]
      exact ih hrest (fun y hy => hitem y (.inr hy)) (fun y hy => hmag y (.inr hy))

variable [Fintype C]

/-- What is written to items outside the cache does not matter. -/
theorem Wired.congr (h : Wired s l) {nextItem nextMag : I → Option I}
    (hitem : ∀ x ∈ l.cached, nextItem x = s.nextItem x)
    (hmag : ∀ x ∈ l.cached, nextMag x = s.nextMag x) :
    Wired { s with nextItem, nextMag } l where
  load c := (h.load c).congr fun x hx => hitem x (Layout.mem_cached.mpr (.inl ⟨c, .inl hx⟩))
  prev c := (h.prev c).congr fun x hx => hitem x (Layout.mem_cached.mpr (.inl ⟨c, .inr hx⟩))
  pool := h.pool.congr (fun x hx => hitem x (Layout.mem_cached.mpr (.inr hx)))
    (fun x hx => hmag x (Layout.mem_cached.mpr (.inr hx)))

theorem TcInv.not_cached_of_held {magSize : ℕ} (h : TcInv magSize s l) {x : I} (hx : x ∈ s.held) :
    x ∉ l.cached := by
  have hnd := h.nodup
  rw [← h.ledger] at hnd
  exact not_mem_of_nodup hnd hx

theorem TcInv.not_cached_of_not_out {magSize : ℕ} (h : TcInv magSize s l) {x : I}
    (hx : x ∉ s.out) : x ∉ l.cached := by
  intro hc
  rw [← h.ledger] at hx
  exact hx (Multiset.mem_add.mpr (.inl hc))

end

namespace Tcache

section

variable {I C : Type} [DecidableEq I] [DecidableEq C] [Fintype C] {s : Tcache I C}
  {l : Layout I C} {magSize : ℕ} {c : C}

/-- The magazines are in order but for the number of rounds of one CPU. -/
structure SizedOff (magSize : ℕ) (s : Tcache I C) (l : Layout I C) (c : C) : Prop where
  load : ∀ c', c' ≠ c → (l.load c').length = s.rounds c'
  rounds : ∀ c', s.rounds c' ≤ magSize
  prev : ∀ c', l.prev c' = [] ∨ (l.prev c').length = magSize
  pool : ∀ mag ∈ l.pool, mag.length = magSize

omit [DecidableEq I] [DecidableEq C] [Fintype C] in
theorem sizedOff (h : Sized magSize s l) (c : C) : SizedOff magSize s l c where
  load c' _ := h.load c'
  rounds := h.rounds
  prev := h.prev
  pool := h.pool

section

variable {u : Tcache I C} {load prev : List I}

omit [DecidableEq I] [Fintype C] in
/-- The magazines of one CPU change. -/
theorem wired_setHandle (hw : Wired s l) (hitem : u.nextItem = s.nextItem)
    (hloaded : ∀ c', c' ≠ c → u.loaded c' = s.loaded c')
    (hprevious : ∀ c', c' ≠ c → u.previous c' = s.previous c')
    (hload : Linked s.nextItem (u.loaded c) load) (hprev : Linked s.nextItem (u.previous c) prev)
    (hpool : Pooled s.nextItem u.nextMag u.sharedMags l.pool) :
    Wired u (l.setHandle c load prev) := by
  rw [← hitem] at hload hprev hpool
  refine ⟨?_, ?_, hpool⟩
  · intro c'
    by_cases hc : c' = c
    · subst hc
      simpa [Layout.setHandle] using hload
    · simpa [Layout.setHandle, hc, hitem, hloaded c' hc] using hw.load c'
  · intro c'
    by_cases hc : c' = c
    · subst hc
      simpa [Layout.setHandle] using hprev
    · simpa [Layout.setHandle, hc, hitem, hprevious c' hc] using hw.prev c'

omit [DecidableEq I] [Fintype C] in
theorem SizedOff.setHandle (hs : SizedOff magSize s l c) (hrounds : u.rounds = s.rounds)
    (hprev : prev = [] ∨ prev.length = magSize) :
    SizedOff magSize u (l.setHandle c load prev) c := by
  refine ⟨?_, ?_, ?_, hs.pool⟩
  · intro c' hc
    simpa [Layout.setHandle, hc, hrounds] using hs.load c' hc
  · intro c'
    simpa [hrounds] using hs.rounds c'
  · intro c'
    by_cases hc : c' = c
    · subst hc
      simpa [Layout.setHandle] using hprev
    · simpa [Layout.setHandle, hc] using hs.prev c'

omit [DecidableEq I] [Fintype C] in
theorem SizedOff.sized (hs : SizedOff magSize s l c)
    (hrounds : u.rounds = Function.update s.rounds c load.length) (hload : load.length ≤ magSize)
    (hprev : prev = [] ∨ prev.length = magSize) : Sized magSize u (l.setHandle c load prev) := by
  have hset : SizedOff magSize s (l.setHandle c load prev) c := hs.setHandle rfl hprev
  refine ⟨?_, ?_, hset.prev, hset.pool⟩
  · intro c'
    by_cases hc : c' = c
    · simp [Layout.setHandle, hc, hrounds]
    · simpa [hc, hrounds] using hset.load c' hc
  · intro c'
    by_cases hc : c' = c
    · simpa [hc, hrounds] using hload
    · simpa [hc, hrounds] using hs.rounds c'

end

omit [DecidableEq I] in
/-- The first item of a loaded magazine is taken. -/
theorem taken_inv (hw : Wired s l) (hs : SizedOff magSize s l c) {out : Multiset I}
    (hl : l.cached + s.held = out) (hn : out.Nodup) {x : I} {xs : List I} (hx : l.load c = x :: xs)
    (hxs : xs.length ≤ magSize) :
    TcInv magSize
      { s with
        rounds := Function.update s.rounds c xs.length
        loaded := Function.update s.loaded c (s.nextItem x)
        held := x ::ₘ s.held
        out } (l.setHandle c xs (l.prev c)) := by
  have hlink := hw.load c
  rw [hx] at hlink
  refine ⟨?_, hs.sized rfl hxs (hs.prev c), ?_, hn⟩
  · apply wired_setHandle hw
    · rfl
    · exact fun c' hc => Function.update_of_ne hc _ _
    · exact fun _ _ => rfl
    · simpa using hlink.2
    · exact hw.prev c
    · exact hw.pool
  · have hset := l.cached_setHandle c xs (l.prev c)
    simp only [Layout.handle, hx, ← Multiset.cons_coe, Multiset.cons_add] at hset
    rw [Multiset.add_cons, ← Multiset.cons_add] at hset
    have hcached := add_right_cancel hset
    change (l.setHandle c xs (l.prev c)).cached + x ::ₘ s.held = out
    rw [Multiset.add_cons, ← Multiset.cons_add, hcached, hl]

/-- What the backend returns: a magazine of items that it has not given out. -/
def Fresh (magSize : ℕ) (s : Tcache I C) (items : List I) : Prop :=
  items.length = magSize ∧ items.Nodup ∧ ∀ x ∈ items, x ∉ s.out

omit [DecidableEq I] in
/-- A full magazine is loaded, and its first item taken. -/
theorem takeFirst_inv (hw : Wired s l) (hs : SizedOff magSize s l c) {out : Multiset I}
    (hl : l.cached + s.held = out) (hn : out.Nodup) (hpos : 0 < magSize)
    (hfull : (l.load c).length = magSize) :
    ∃ x s' l', takeFirst magSize s c = .ok (some x, s') ∧ s'.held = s.held ∧ s'.out = s.out ∧
      TcInv magSize { s' with held := x ::ₘ s.held, out } l' := by
  cases hx : l.load c with
  | nil =>
      rw [hx] at hfull
      simp at hfull
      omega
  | cons x xs =>
      have hload : s.loaded c = some x := by simpa [hx] using (hw.load c).eq_head?
      have hlen : xs.length = magSize - 1 := by
        rw [hx, List.length_cons] at hfull
        omega
      have hinv := taken_inv hw hs hl hn hx (by omega)
      rw [hlen] at hinv
      exact ⟨x, { s with
        rounds := Function.update s.rounds c (magSize - 1)
        loaded := Function.update s.loaded c (s.nextItem x) }, _, by simp only [takeFirst, hload], rfl,
        rfl, hinv⟩

omit [DecidableEq I] [DecidableEq C] in
/-- The previous magazine is full. -/
theorem prev_full (h : TcInv magSize s l) {mag : I} (hp : s.previous c = some mag) :
    ∃ xs, l.prev c = mag :: xs ∧ (l.prev c).length = magSize := by
  have hlink := h.wired.prev c
  rw [hp] at hlink
  obtain ⟨xs, hxs, -⟩ := hlink.eq_cons
  have hprev := h.sized.prev c
  exact ⟨xs, hxs, by simpa [hxs] using hprev⟩

omit [DecidableEq I] [DecidableEq C] in
/-- What a CPU has is in no magazine of the pool. -/
theorem prev_not_pooled (h : TcInv magSize s l) {x : I} (hx : x ∈ l.prev c) :
    x ∉ l.pool.flatten := by
  have hnd := h.nodup
  rw [← h.ledger] at hnd
  have hcached := (Multiset.nodup_add.mp hnd).1
  intro hmem
  apply not_mem_of_nodup hcached (Multiset.mem_coe.mpr hmem)
  apply Multiset.mem_sum.mpr
  exact ⟨c, Finset.mem_univ c, by simp [Layout.handle, hx]⟩

omit [DecidableEq I] in
/-- The first case of `__tcache_alloc`: the previous magazine is loaded. -/
theorem allocSlow_previous (h : TcInv magSize s l) (hpos : 0 < magSize) (hnil : l.load c = [])
    {mag : I} (hp : s.previous c = some mag) :
    ∃ x s' l', takeFirst magSize
      { s with
        loaded := Function.update s.loaded c (some mag)
        previous := Function.update s.previous c none } c = .ok (some x, s') ∧
      s'.held = s.held ∧ s'.out = s.out ∧
        TcInv magSize { s' with held := x ::ₘ s.held, out := s.out } l' := by
  have hlink := h.wired.prev c
  rw [hp] at hlink
  obtain ⟨xs, hxs, hfull⟩ := prev_full h hp
  have hset := l.cached_setHandle c (l.prev c) []
  simp only [Layout.handle, hnil, Multiset.coe_nil, zero_add, add_zero] at hset
  apply takeFirst_inv (l := l.setHandle c (l.prev c) [])
  · apply wired_setHandle h.wired
    · rfl
    · exact fun c' hc => Function.update_of_ne hc _ _
    · exact fun c' hc => Function.update_of_ne hc _ _
    · simpa using hlink
    · simp
    · exact h.wired.pool
  · exact (sizedOff h.sized c).setHandle rfl (.inl rfl)
  · exact (congrArg (· + s.held) (add_right_cancel hset)).trans h.ledger
  · exact h.nodup
  · exact hpos
  · simpa [Layout.setHandle] using hfull

omit [DecidableEq I] in
/-- The second case: a magazine of the pool. -/
theorem allocSlow_shared (h : TcInv magSize s l) (hpos : 0 < magSize) (hnil : l.load c = [])
    {mag : I} (hsh : s.sharedMags = some mag) :
    ∃ x s' l', takeFirst magSize
      { s with
        loaded := Function.update s.loaded c (some mag)
        sharedMags := s.nextMag mag } c = .ok (some x, s') ∧
      s'.held = s.held ∧ s'.out = s.out ∧
        TcInv magSize { s' with held := x ::ₘ s.held, out := s.out } l' := by
  have hpool := h.wired.pool
  rw [hsh] at hpool
  cases hmags : l.pool with
  | nil =>
      rw [hmags] at hpool
      exact absurd hpool (by simp [Pooled])
  | cons xs mags =>
      rw [hmags] at hpool
      obtain ⟨y, hy, hlink, hrest⟩ := hpool
      cases hy
      have hfull := h.sized.pool
      simp only [hmags, List.mem_cons, forall_eq_or_imp] at hfull
      have hcached : (Layout.setHandle { l with pool := mags } c xs (l.prev c)).cached =
          l.cached := by
        have hset := Layout.cached_setHandle { l with pool := mags } c xs (l.prev c)
        have hcons := Layout.cached_cons { l with pool := mags } xs
        simp only [Layout.handle, hnil, Multiset.coe_nil, zero_add] at hset
        rw [← add_assoc] at hset
        rw [add_right_cancel hset, ← hcons, ← hmags]
      apply takeFirst_inv (l := Layout.setHandle { l with pool := mags } c xs (l.prev c))
      · have hwired : Wired { s with sharedMags := s.nextMag mag } { l with pool := mags } :=
          ⟨h.wired.load, h.wired.prev, hrest⟩
        apply wired_setHandle hwired
        · rfl
        · exact fun c' hc => Function.update_of_ne hc _ _
        · exact fun _ _ => rfl
        · simpa using hlink
        · exact h.wired.prev c
        · exact hrest
      · have hsized : Sized magSize s { l with pool := mags } :=
          ⟨h.sized.load, h.sized.rounds, h.sized.prev, hfull.2⟩
        exact (sizedOff hsized c).setHandle rfl (h.sized.prev c)
      · exact (congrArg (· + s.held) hcached).trans h.ledger
      · exact h.nodup
      · exact hpos
      · simpa [Layout.setHandle] using hfull.1

/-- The third case: a new magazine. -/
theorem allocSlow_backend (h : TcInv magSize s l) (hpos : 0 < magSize) (hnil : l.load c = [])
    {items : List I} (hfresh : Fresh magSize s items) :
    ∃ x s' l', takeFirst magSize
      { (s.allocMag items).2 with
        loaded := Function.update s.loaded c (s.allocMag items).1 } c = .ok (some x, s') ∧
      s'.held = s.held ∧ s'.out = s.out ∧
        TcInv magSize { s' with held := x ::ₘ s.held, out := items + s.out } l' := by
  obtain ⟨hlen, hnd, hout⟩ := hfresh
  have hkeep : ∀ x ∈ l.cached, link s.nextItem items x = s.nextItem x := by
    intro x hx
    apply link_of_notMem
    intro hxi
    exact h.not_cached_of_not_out (hout x hxi) hx
  have hwired := h.wired.congr hkeep (fun x _ => rfl)
  have hset := l.cached_setHandle c items (l.prev c)
  simp only [Layout.handle, hnil, Multiset.coe_nil, zero_add] at hset
  rw [← add_assoc] at hset
  apply takeFirst_inv (l := l.setHandle c items (l.prev c))
  · apply wired_setHandle hwired
    · rfl
    · exact fun c' hc => Function.update_of_ne hc _ _
    · exact fun _ _ => rfl
    · simpa [allocMag] using linked_link hnd
    · exact hwired.prev c
    · exact hwired.pool
  · exact (sizedOff h.sized c).setHandle rfl (h.sized.prev c)
  · change (l.setHandle c items (l.prev c)).cached + s.held = items + s.out
    rw [add_right_cancel hset, ← h.ledger, add_comm l.cached, add_assoc]
  · apply Multiset.nodup_add.mpr
    refine ⟨Multiset.coe_nodup.mpr hnd, h.nodup, ?_⟩
    exact Multiset.disjoint_left.mpr fun {x} hx => hout x (Multiset.mem_coe.mp hx)
  · exact hpos
  · simpa [Layout.setHandle] using hlen

/-- The loaded magazine has an item. -/
theorem tcacheAlloc_loaded (h : TcInv magSize s l) (hr : s.rounds c ≠ 0) (backend : Option (List I)) :
    ∃ x s' l', s.tcacheAlloc magSize c backend = .ok (some x, s') ∧ s'.held = s.held ∧
      s'.out = s.out ∧ TcInv magSize { s' with held := x ::ₘ s.held, out := s.out } l' := by
  cases hx : l.load c with
  | nil =>
      have hlen := h.sized.load c
      rw [hx] at hlen
      exact absurd hlen.symm hr
  | cons x xs =>
      have hload : s.loaded c = some x := by simpa [hx] using (h.wired.load c).eq_head?
      have hlen : xs.length = s.rounds c - 1 := by
        have hl := h.sized.load c
        rw [hx, List.length_cons] at hl
        omega
      have hinv := taken_inv h.wired (sizedOff h.sized c) h.ledger h.nodup hx
        (by have hle := h.sized.rounds c; omega)
      rw [hlen] at hinv
      exact ⟨x, { s with
        rounds := Function.update s.rounds c (s.rounds c - 1)
        loaded := Function.update s.loaded c (s.nextItem x) }, l.setHandle c xs (l.prev c),
        by simp only [tcacheAlloc, if_neg hr, hload], rfl, rfl, hinv⟩

/-- `tcache_alloc` takes an item, or it fails with the backend and changes nothing. -/
theorem tcacheAlloc_spec (h : TcInv magSize s l) (hpos : 0 < magSize) {backend : Option (List I)}
    (hb : s.AsksBackend c → ∀ items, backend = some items → Fresh magSize s items) :
    (∃ x s' l', s.tcacheAlloc magSize c backend = .ok (some x, s') ∧ s'.held = s.held ∧
      s'.out = s.out ∧ TcInv magSize { s' with
        held := x ::ₘ s.held
        out := (if s.AsksBackend c then ↑(backend.getD []) else 0) + s.out } l') ∨
    (s.tcacheAlloc magSize c backend = .ok (none, s) ∧ s.AsksBackend c ∧ backend = none) := by
  by_cases hr : s.rounds c = 0
  · have hnil : l.load c = [] := List.length_eq_zero_iff.mp ((h.sized.load c).trans hr)
    have hloaded : s.loaded c = none := by simpa [hnil] using h.wired.load c
    simp only [tcacheAlloc, allocSlow, hr, hloaded, if_true, ne_eq, not_true_eq_false, or_self,
      if_false]
    by_cases hp : s.previous c = none
    · by_cases hsh : s.sharedMags = none
      · have hask : s.AsksBackend c := ⟨hr, hp, hsh⟩
        cases backend with
        | none =>
            have hsame : { s with loaded := Function.update s.loaded c none } = s := by
              rw [← hloaded, Function.update_eq_self]
            exact .inr ⟨by simp only [hp, hsh] at hsame ⊢; simp only [hsame], hask, rfl⟩
        | some items =>
            obtain ⟨x, s', l', hs', hh, ho, hi⟩ := allocSlow_backend h hpos hnil (hb hask items rfl)
            refine .inl ⟨x, s', l', ?_, hh, ho, ?_⟩
            · simp only [hp, hsh] at hs' ⊢
              exact hs'
            · rw [if_pos hask]
              exact hi
      · obtain ⟨mag, hmag⟩ := Option.ne_none_iff_exists'.mp hsh
        obtain ⟨x, s', l', hs', hh, ho, hi⟩ := allocSlow_shared h hpos hnil hmag
        refine .inl ⟨x, s', l', ?_, hh, ho, ?_⟩
        · simp only [hp, hmag]
          exact hs'
        · rw [if_neg fun hask => hsh hask.2.2, zero_add]
          exact hi
    · obtain ⟨mag, hmag⟩ := Option.ne_none_iff_exists'.mp hp
      obtain ⟨x, s', l', hs', hh, ho, hi⟩ := allocSlow_previous h hpos hnil hmag
      refine .inl ⟨x, s', l', ?_, hh, ho, ?_⟩
      · simp only [hmag]
        exact hs'
      · rw [if_neg fun hask => hp hask.2.1, zero_add]
        exact hi
  · obtain ⟨x, s', l', hs', hh, ho, hi⟩ := tcacheAlloc_loaded h hr backend
    refine .inl ⟨x, s', l', hs', hh, ho, ?_⟩
    rw [if_neg fun hask => hr hask.1, zero_add]
    exact hi

/-- A call of `tcache_alloc` keeps the items in their places. -/
theorem callAlloc_inv (h : TcInv magSize s l) (hpos : 0 < magSize) {backend : Option (List I)}
    (hb : s.AsksBackend c → ∀ items, backend = some items → Fresh magSize s items) :
    (∃ x s' l', s.callAlloc magSize c backend = .ok (some x, s') ∧ TcInv magSize s' l' ∧
      s'.out = (if s.AsksBackend c then ↑(backend.getD []) else 0) + s.out) ∨
    (s.callAlloc magSize c backend = .ok (none, s) ∧ s.AsksBackend c ∧ backend = none) := by
  rcases tcacheAlloc_spec h hpos hb with ⟨x, u, l', hu, hh, ho, hi⟩ | ⟨hu, hask, hnone⟩
  · left
    rw [← hh, ← ho] at hi
    exact ⟨x, _, l', by rw [callAlloc, hu]; rfl, hi, by rw [ho]⟩
  · refine .inr ⟨?_, hask, hnone⟩
    rw [callAlloc, hu, hnone]
    simp [Except.map]

omit [DecidableEq I] [Fintype C] in
theorem takeFirst_records {s' : Tcache I C} {r : Option I} (h : takeFirst magSize s c = .ok (r, s')) :
    s'.held = s.held ∧ s'.out = s.out := by
  rw [takeFirst] at h
  split at h
  · cases h
  · cases h
    exact ⟨rfl, rfl⟩

omit [Fintype C] in
/-- The function writes no record. -/
theorem tcacheAlloc_records {s' : Tcache I C} {r : Option I} {backend : Option (List I)}
    (h : s.tcacheAlloc magSize c backend = .ok (r, s')) : s'.held = s.held ∧ s'.out = s.out := by
  rw [tcacheAlloc] at h
  split at h
  · unfold allocSlow at h
    split at h
    · cases h
    · split at h
      · have hrec := takeFirst_records h
        exact hrec
      · split at h
        · have hrec := takeFirst_records h
          exact hrec
        · split at h
          · cases h
            exact ⟨rfl, rfl⟩
          · have hrec := takeFirst_records h
            exact hrec
  · split at h
    · cases h
    · cases h
      exact ⟨rfl, rfl⟩

omit [Fintype C] in
/-- The item that an allocation returns is the caller's. -/
theorem callAlloc_held {s' : Tcache I C} {x : I} {backend : Option (List I)}
    (h : s.callAlloc magSize c backend = .ok (some x, s')) : s'.held = x ::ₘ s.held := by
  rw [callAlloc] at h
  cases hr : s.tcacheAlloc magSize c backend with
  | error f =>
      rw [hr] at h
      cases h
  | ok r =>
      rw [hr] at h
      obtain ⟨r, u⟩ := r
      cases h
      rw [← (tcacheAlloc_records hr).1]
      rfl

omit [DecidableEq I] [DecidableEq C] in
/-- When the backend is asked, only magazines of the CPUs have items. -/
theorem out_card_le (h : TcInv magSize s l) (hask : s.AsksBackend c) :
    s.out.card ≤ Fintype.card C * (2 * magSize) + s.held.card := by
  have hpool : l.pool = [] := by
    have hp := h.wired.pool
    rw [hask.2.2] at hp
    cases hpool : l.pool with
    | nil => rfl
    | cons mag mags =>
        rw [hpool] at hp
        obtain ⟨x, hx, -⟩ := hp
        cases hx
  have hhandle : ∀ c' ∈ Finset.univ, (l.handle c').card ≤ 2 * magSize := by
    intro c' _
    have hload := h.sized.load c'
    have hrounds := h.sized.rounds c'
    have hprev : (l.prev c').length ≤ magSize := by
      rcases h.sized.prev c' with hp | hp
      · simp [hp]
      · exact hp.le
    rw [Layout.handle, Multiset.card_add, Multiset.coe_card, Multiset.coe_card]
    omega
  have hsum := Finset.sum_le_card_nsmul Finset.univ (fun c' => (l.handle c').card) _ hhandle
  rw [← h.ledger, Layout.cached, hpool, Multiset.card_add, Multiset.card_add, Multiset.card_sum]
  simpa using hsum

/-! ## Freeing -/

/-- An item from outside is put before the items that are loaded. -/
theorem push_wired (hw : Wired s l) {x : I} (hx : x ∉ l.cached) :
    Wired { s with
      nextItem := Function.update s.nextItem x (s.loaded c)
      loaded := Function.update s.loaded c (some x) }
      (l.setHandle c (x :: l.load c) (l.prev c)) := by
  have hkeep : ∀ y ∈ l.cached, Function.update s.nextItem x (s.loaded c) y = s.nextItem y := by
    intro y hy
    apply Function.update_of_ne
    intro hyx
    exact hx (hyx ▸ hy)
  have hwired := hw.congr hkeep (fun y _ => rfl)
  have hxl : x ∉ l.load c := fun hm => hx (Layout.mem_cached.mpr (.inl ⟨c, .inl hm⟩))
  apply wired_setHandle hwired
  · rfl
  · exact fun c' hc => Function.update_of_ne hc _ _
  · exact fun _ _ => rfl
  · simpa using (hw.load c).push hxl
  · exact hwired.prev c
  · exact hwired.pool

/-- An item from outside starts a new magazine. -/
theorem startMag_wired (hw : Wired s l) {x : I} (hx : x ∉ l.cached) :
    Wired (s.startMag c x) (l.setHandle c [x] (l.prev c)) := by
  have hkeep : ∀ y ∈ l.cached, Function.update s.nextItem x none y = s.nextItem y := by
    intro y hy
    apply Function.update_of_ne
    intro hyx
    exact hx (hyx ▸ hy)
  have hwired := hw.congr hkeep (fun y _ => rfl)
  apply wired_setHandle hwired
  · rfl
  · exact fun c' hc => Function.update_of_ne hc _ _
  · exact fun _ _ => rfl
  · simp [startMag]
  · exact hwired.prev c
  · exact hwired.pool

/-- The fast path of `tcache_free`. -/
theorem freeFast_inv (h : TcInv magSize s l) {x : I} (hx : x ∈ s.held) (hr : s.rounds c < magSize) :
    TcInv magSize
      { s with
        rounds := Function.update s.rounds c (s.rounds c + 1)
        nextItem := Function.update s.nextItem x (s.loaded c)
        loaded := Function.update s.loaded c (some x)
        held := s.held.erase x } (l.setHandle c (x :: l.load c) (l.prev c)) := by
  have hw := push_wired (c := c) h.wired (h.not_cached_of_held hx)
  have hlen : (x :: l.load c).length = s.rounds c + 1 := by simp [h.sized.load c]
  refine ⟨⟨hw.load, hw.prev, hw.pool⟩, ?_, ?_, h.nodup⟩
  · apply (sizedOff h.sized c).sized
    · rw [hlen]
    · omega
    · exact h.sized.prev c
  · have hset := l.cached_setHandle c (x :: l.load c) (l.prev c)
    simp only [Layout.handle, ← Multiset.cons_coe, Multiset.cons_add] at hset
    rw [Multiset.add_cons, ← Multiset.cons_add] at hset
    change (l.setHandle c (x :: l.load c) (l.prev c)).cached + s.held.erase x = s.out
    rw [add_right_cancel hset, Multiset.cons_add, ← Multiset.add_cons, Multiset.cons_erase hx,
      h.ledger]

/-- The sizes after the loaded magazine became the previous one and a new one was started. -/
theorem startMag_sized (h : TcInv magSize s l) (hpos : 0 < magSize) (hr : s.rounds c = magSize)
    (x : I) {pool : List (List I)} (hpool : ∀ mag ∈ pool, mag.length = magSize) {u : Tcache I C}
    (hu : u.rounds = s.rounds) :
    Sized magSize (u.startMag c x) (Layout.setHandle { l with pool } c [x] (l.load c)) := by
  have hsized : Sized magSize s { l with pool } :=
    ⟨h.sized.load, h.sized.rounds, h.sized.prev, hpool⟩
  apply (sizedOff hsized c).sized
  · simp [startMag, hu]
  · exact hpos
  · exact .inr ((h.sized.load c).trans hr)

/-- `__tcache_free` with no previous magazine. -/
theorem freeSlow_none (h : TcInv magSize s l) (hpos : 0 < magSize) (hr : s.rounds c = magSize)
    (hp : s.previous c = none) {x : I} (hx : x ∈ s.held) :
    TcInv magSize
      { ({ s with previous := Function.update s.previous c (s.loaded c) } : Tcache I C).startMag c x with
        held := s.held.erase x }
      (l.setHandle c [x] (l.load c)) := by
  have hnil : l.prev c = [] := by
    have hlink := h.wired.prev c
    rw [hp] at hlink
    exact hlink.eq_nil
  let l₁ : Layout I C := { l with prev := Function.update l.prev c (l.load c) }
  have hw₁ : Wired { s with previous := Function.update s.previous c (s.loaded c) } l₁ := by
    refine ⟨h.wired.load, ?_, h.wired.pool⟩
    intro c'
    by_cases hc : c' = c
    · subst hc
      simpa [l₁] using h.wired.load c'
    · simpa [l₁, hc] using h.wired.prev c'
  have hx₁ : x ∉ l₁.cached := by
    intro hmem
    apply h.not_cached_of_held hx
    rw [Layout.mem_cached] at hmem ⊢
    simp only [l₁, Function.update_apply] at hmem
    grind
  have hw := startMag_wired (c := c) hw₁ hx₁
  have hl₁ : l₁.setHandle c [x] (l₁.prev c) = l.setHandle c [x] (l.load c) := by
    simp [l₁, Layout.setHandle]
  rw [hl₁] at hw
  have hs := startMag_sized h hpos hr x h.sized.pool
    (u := { s with previous := Function.update s.previous c (s.loaded c) }) rfl
  refine ⟨⟨hw.load, hw.prev, hw.pool⟩, ⟨hs.load, hs.rounds, hs.prev, hs.pool⟩, ?_, h.nodup⟩
  have hset := l.cached_setHandle c [x] (l.load c)
  simp only [Layout.handle, hnil, Multiset.coe_nil, add_zero, Multiset.coe_singleton,
    Multiset.singleton_add] at hset
  rw [Multiset.add_cons, ← Multiset.cons_add] at hset
  change (l.setHandle c [x] (l.load c)).cached + s.held.erase x = s.out
  rw [add_right_cancel hset, Multiset.cons_add, ← Multiset.add_cons, Multiset.cons_erase hx,
    h.ledger]

/-- `__tcache_free` with a previous magazine, which goes to the pool. -/
theorem freeSlow_some (h : TcInv magSize s l) (hpos : 0 < magSize) (hr : s.rounds c = magSize)
    {mag : I} (hp : s.previous c = some mag) {x : I} (hx : x ∈ s.held) :
    TcInv magSize
      { ({ s with
          nextMag := Function.update s.nextMag mag s.sharedMags
          sharedMags := some mag
          previous := Function.update s.previous c (s.loaded c) } : Tcache I C).startMag c x with
        held := s.held.erase x }
      (Layout.setHandle { l with pool := l.prev c :: l.pool } c [x] (l.load c)) := by
  have hlink := h.wired.prev c
  rw [hp] at hlink
  obtain ⟨ys, hys, hfull⟩ := prev_full h hp
  have hmag : mag ∉ l.pool.flatten := by
    apply prev_not_pooled h (c := c)
    simp [hys]
  let l₁ : Layout I C :=
    { l with prev := Function.update l.prev c (l.load c), pool := l.prev c :: l.pool }
  have hw₁ : Wired
      { s with
        nextMag := Function.update s.nextMag mag s.sharedMags
        sharedMags := some mag
        previous := Function.update s.previous c (s.loaded c) } l₁ := by
    refine ⟨h.wired.load, ?_, ⟨mag, rfl, hlink, ?_⟩⟩
    · intro c'
      by_cases hc : c' = c
      · subst hc
        simpa [l₁] using h.wired.load c'
      · simpa [l₁, hc] using h.wired.prev c'
    · simp only [Function.update_self]
      apply h.wired.pool.congr (fun y _ => rfl)
      intro y hy
      apply Function.update_of_ne
      intro hym
      exact hmag (hym ▸ hy)
  have hx₁ : x ∉ l₁.cached := by
    intro hmem
    apply h.not_cached_of_held hx
    rw [Layout.mem_cached] at hmem ⊢
    simp only [l₁, Function.update_apply, List.flatten_cons, List.mem_append] at hmem
    grind
  have hw := startMag_wired (c := c) hw₁ hx₁
  have hl₁ : l₁.setHandle c [x] (l₁.prev c) =
      Layout.setHandle { l with pool := l.prev c :: l.pool } c [x] (l.load c) := by
    simp [l₁, Layout.setHandle]
  rw [hl₁] at hw
  have hpool : ∀ m ∈ l.prev c :: l.pool, m.length = magSize := by
    intro m hm
    rcases List.mem_cons.mp hm with rfl | hm
    · exact hfull
    · exact h.sized.pool m hm
  have hs := startMag_sized h hpos hr x hpool
    (u := { s with
      nextMag := Function.update s.nextMag mag s.sharedMags
      sharedMags := some mag
      previous := Function.update s.previous c (s.loaded c) }) rfl
  refine ⟨⟨hw.load, hw.prev, hw.pool⟩, ⟨hs.load, hs.rounds, hs.prev, hs.pool⟩, ?_, h.nodup⟩
  · have hset := Layout.cached_setHandle { l with pool := l.prev c :: l.pool } c [x] (l.load c)
    rw [l.cached_cons] at hset
    simp only [Layout.handle, Multiset.coe_singleton, Multiset.singleton_add] at hset
    rw [Multiset.add_cons, add_comm (l.load c : Multiset I), ← add_assoc, ← Multiset.cons_add,
      ← Multiset.cons_add] at hset
    change (Layout.setHandle { l with pool := l.prev c :: l.pool } c [x] (l.load c)).cached +
      s.held.erase x = s.out
    rw [add_right_cancel (add_right_cancel hset), Multiset.cons_add, ← Multiset.add_cons,
      Multiset.cons_erase hx, h.ledger]

/-- `tcache_free` with an item that the caller has. -/
theorem callFree_inv (h : TcInv magSize s l) (hpos : 0 < magSize) {x : I} (hx : x ∈ s.held) :
    ∃ s' l', s.callFree magSize c x = .ok s' ∧ TcInv magSize s' l' ∧ s'.out = s.out := by
  by_cases hr : magSize ≤ s.rounds c
  · have heq : s.rounds c = magSize := le_antisymm (h.sized.rounds c) hr
    have hload : s.loaded c ≠ none := by
      intro hnone
      have hlink := h.wired.load c
      rw [hnone] at hlink
      have hlen := h.sized.load c
      rw [hlink.eq_nil] at hlen
      simp only [List.length_nil] at hlen
      omega
    simp only [callFree, tcacheFree, freeSlow, heq, le_refl, if_true, ne_eq, not_true_eq_false, hload,
      or_self, if_false]
    by_cases hp : s.previous c = none
    · exact ⟨_, _, by simp only [hp]; rfl, freeSlow_none h hpos heq hp hx, rfl⟩
    · obtain ⟨mag, hmag⟩ := Option.ne_none_iff_exists'.mp hp
      exact ⟨_, _, by simp only [hmag]; rfl, freeSlow_some h hpos heq hmag hx, rfl⟩
  · exact ⟨_, _, by rw [callFree, tcacheFree, if_neg hr]; rfl, freeFast_inv h hx (by omega), rfl⟩

omit [Fintype C] in
/-- An item that is freed is the caller's no more; who else has what does not matter to it. -/
theorem callFree_relabel (s : Tcache I C) (held out : Multiset I) (x : I) :
    ({ s with held, out } : Tcache I C).callFree magSize c x =
      (s.callFree magSize c x).map fun t => { t with held := held.erase x, out } := by
  simp only [callFree, tcacheFree, freeSlow]
  split
  · split
    · rfl
    · split
      · rfl
      · rfl
  · rfl

omit [Fintype C] in
theorem callFree_held {s' : Tcache I C} {x : I} (h : s.callFree magSize c x = .ok s') :
    s'.held = s.held.erase x ∧ s'.out = s.out := by
  have hr : s.callFree magSize c x = (s.callFree magSize c x).map _ :=
    callFree_relabel s s.held s.out x
  rw [h] at hr
  have heq := Except.ok.inj hr
  have hheld := congrArg Tcache.held heq
  have hout := congrArg Tcache.out heq
  exact ⟨hheld, hout⟩

/-! ## Reclaiming -/

omit [DecidableEq I] [DecidableEq C] [Fintype C] in
theorem drained_eq (hmax : magSize ≤ maxMagSize) : ∀ {mags : List (List I)} {p : Option I} {n : ℕ},
    Pooled s.nextItem s.nextMag p mags → (∀ mag ∈ mags, mag.length = magSize) → mags.length ≤ n →
    s.drained magSize n p = .ok mags := by
  intro mags
  induction mags with
  | nil =>
      intro p n h _ _
      rw [show p = none from h]
      cases n <;> rfl
  | cons mag mags ih =>
      intro p n h hfull hn
      obtain ⟨x, rfl, hlink, hrest⟩ := h
      simp only [List.mem_cons, forall_eq_or_imp] at hfull
      have hitems : s.magItems magSize x = .ok mag := by
        simp only [magItems, hlink.walk_eq (hfull.1.trans_le hmax), if_pos hfull.1]
      cases n with
      | zero => simp at hn
      | succ n =>
          have hmags := ih hrest hfull.2 (n := n) (by simpa using hn)
          simp only [drained, hitems, hmags]

omit [DecidableEq I] [DecidableEq C] in
/-- There are not more magazines in the pool than items. -/
theorem pool_length_le (h : TcInv magSize s l) (hpos : 0 < magSize) :
    l.pool.length ≤ s.out.card := by
  have hflat : l.pool.flatten.length ≤ s.out.card := by
    rw [← h.ledger, Layout.cached, Multiset.card_add, Multiset.card_add, Multiset.coe_card]
    omega
  have hone : ∀ n ∈ l.pool.map List.length, 1 ≤ n := by
    intro n hn
    obtain ⟨mag, hmag, rfl⟩ := List.mem_map.mp hn
    rw [h.sized.pool mag hmag]
    exact hpos
  have hsum := List.length_le_sum_of_one_le _ hone
  rw [List.length_map, ← List.length_flatten] at hsum
  exact hsum.trans hflat

omit [DecidableEq C] in
/-- `tcache_reclaim` returns the magazines of the pool. -/
theorem callReclaim_inv (h : TcInv magSize s l) (hpos : 0 < magSize) (hmax : magSize ≤ maxMagSize) :
    ∃ s', s.callReclaim magSize = .ok (l.pool, s') ∧ TcInv magSize s' { l with pool := [] } ∧
      ↑l.pool.flatten + s'.out = s.out ∧ s'.nextItem = s.nextItem ∧ s'.nextMag = s.nextMag := by
  have hdrained := drained_eq hmax h.wired.pool h.sized.pool (pool_length_le h hpos)
  have hcached : ({ l with pool := [] } : Layout I C).cached + ↑l.pool.flatten = l.cached := by
    simp [Layout.cached, Layout.handle]
  have hout : s.out = ({ l with pool := [] } : Layout I C).cached + s.held + ↑l.pool.flatten := by
    rw [← h.ledger, ← hcached, add_right_comm]
  have hsub : s.out - ↑l.pool.flatten = ({ l with pool := [] } : Layout I C).cached + s.held := by
    rw [hout]
    exact add_tsub_cancel_right _ _
  refine ⟨{ s with
    sharedMags := none
    magsAllocated := s.magsAllocated - l.pool.length
    out := s.out - l.pool.flatten }, by simp only [callReclaim, tcacheReclaim, hdrained]; rfl, ?_, ?_,
    rfl, rfl⟩
  · refine ⟨⟨h.wired.load, h.wired.prev, rfl⟩, ⟨h.sized.load, h.sized.rounds, h.sized.prev, ?_⟩, ?_,
      ?_⟩
    · simp
    · exact hsub.symm
    · change (s.out - ↑l.pool.flatten).Nodup
      rw [hsub]
      have hnd := h.nodup
      rw [hout] at hnd
      exact (Multiset.nodup_add.mp hnd).1
  · change ↑l.pool.flatten + (s.out - ↑l.pool.flatten) = s.out
    rw [hsub, hout, add_comm]

omit [DecidableEq C] in
/-- A caller writes to an item it has. -/
theorem write_inv (h : TcInv magSize s l) {x : I} (hx : x ∈ s.held) (nextItem nextMag : Option I) :
    TcInv magSize (s.write x nextItem nextMag) l := by
  have hne : ∀ y ∈ l.cached, y ≠ x := by
    intro y hy hyx
    exact h.not_cached_of_held hx (hyx ▸ hy)
  refine ⟨?_, ⟨h.sized.load, h.sized.rounds, h.sized.prev, h.sized.pool⟩, h.ledger, h.nodup⟩
  exact h.wired.congr (fun y hy => Function.update_of_ne (hne y hy) _ _)
    (fun y hy => Function.update_of_ne (hne y hy) _ _)

/-! ## Runs -/

/-- The calls that are made: the backend returns items it has not given out, and what is freed
or written is the caller's. -/
def Allowed (magSize : ℕ) (s : Tcache I C) : TcEvent I C → Prop
  | .alloc _ (some items) => s.Fresh magSize items
  | .alloc _ none | .reclaim => True
  | .free _ item | .write item _ _ => item ∈ s.held

instance (magSize : ℕ) (s : Tcache I C) (items : List I) : Decidable (s.Fresh magSize items) :=
  inferInstanceAs (Decidable (_ ∧ _))

instance (magSize : ℕ) (s : Tcache I C) : (e : TcEvent I C) → Decidable (s.Allowed magSize e)
  | .alloc _ (some items) => inferInstanceAs (Decidable (s.Fresh magSize items))
  | .alloc _ none | .reclaim => inferInstanceAs (Decidable True)
  | .free _ item | .write item _ _ => inferInstanceAs (Decidable (item ∈ s.held))

theorem tcStep_inv (hpos : 0 < magSize) (hmax : magSize ≤ maxMagSize)
    (h : ∃ l, TcInv magSize s l) {e : TcEvent I C} (he : s.Allowed magSize e) :
    ∃ s', tcStep magSize s e = .ok s' ∧ ∃ l, TcInv magSize s' l := by
  obtain ⟨l, h⟩ := h
  cases e with
  | alloc c backend =>
      have hb : ∀ items, backend = some items → s.Fresh magSize items := by
        intro items hitems
        rwa [hitems] at he
      rcases callAlloc_inv (c := c) h hpos (fun _ => hb) with ⟨x, s', l', hs', hi, -⟩ | ⟨hs', -, -⟩
      · exact ⟨s', by simp [tcStep, hs', Except.map], l', hi⟩
      · exact ⟨s, by simp [tcStep, hs', Except.map], l, h⟩
  | free c x =>
      obtain ⟨s', l', hs', hi, -⟩ := callFree_inv (c := c) h hpos he
      exact ⟨s', hs', l', hi⟩
  | reclaim =>
      obtain ⟨s', hs', hi, -⟩ := callReclaim_inv h hpos hmax
      exact ⟨s', by simp [tcStep, hs', Except.map], _, hi⟩
  | write x nextItem nextMag => exact ⟨_, rfl, l, write_inv h he nextItem nextMag⟩

omit [DecidableEq I] [DecidableEq C] in
theorem create_inv (magSize : ℕ) (nextItem nextMag : I → Option I) :
    TcInv magSize (create nextItem nextMag : Tcache I C)
      { load := fun _ => [], prev := fun _ => [], pool := [] } := by
  refine ⟨⟨fun _ => rfl, fun _ => rfl, rfl⟩, ⟨fun _ => rfl, fun _ => Nat.zero_le _, ?_, ?_⟩, ?_, ?_⟩
  · simp
  · simp
  · simp [create, Layout.cached, Layout.handle]
  · simp [create]

/-- Every item is in one place and the magazines are full, whatever calls are made; and a call
of `tcache_alloc` that fails with the backend changes nothing. -/
theorem tcache_exact (hpos : 0 < magSize) (hmax : magSize ≤ maxMagSize)
    (nextItem nextMag : I → Option I) (es : List (TcEvent I C))
    (hes : Along (tcStep magSize) (Allowed magSize) (create nextItem nextMag) es) :
    ∃ s : Tcache I C, exec (tcStep magSize) (create nextItem nextMag) es = .ok s ∧
      (∃ l, TcInv magSize s l) ∧
      ∀ c s', s.tcacheAlloc magSize c none = .ok (none, s') → s' = s := by
  obtain ⟨s, hs, l, hi⟩ := exec_ok (I := fun s => ∃ l, TcInv magSize s l)
    (fun s e h he => tcStep_inv hpos hmax h he) ⟨_, create_inv magSize nextItem nextMag⟩ hes
  refine ⟨s, hs, ⟨l, hi⟩, ?_⟩
  intro c s' hs'
  have hfail : s.AsksBackend c → ∀ items, none = some items → s.Fresh magSize items := by simp
  rcases tcacheAlloc_spec (c := c) hi hpos hfail with ⟨x, u, l', hu, -⟩ | ⟨hu, -, -⟩
  · simp [hu] at hs'
  · simpa [hu] using hs'.symm

/-- Two CPUs with magazines of two items: one allocates, the other frees until a magazine comes
to the pool, and the pool is reclaimed. -/
def tcRun : List (TcEvent ℕ Bool) :=
  [.alloc true (some [1, 2]), .alloc true none, .alloc true (some [3, 4]), .alloc true none,
    .alloc true (some [5, 6]), .write 3 (some 3) (some 9), .free false 3, .free false 1,
    .free false 5, .free false 2, .free false 4, .reclaim, .alloc true none, .alloc true none]

theorem tcache_exact_tcRun :
    Along (tcStep 2) (Allowed 2) (create (fun _ => none) (fun _ => none)) tcRun ∧
    ∃ s : Tcache ℕ Bool,
      exec (tcStep 2) (create (fun _ => none) (fun _ => none)) tcRun = .ok s ∧
      (∃ l, TcInv 2 s l) ∧ ∀ c s', s.tcacheAlloc 2 c none = .ok (none, s') → s' = s :=
  have hes : Along (tcStep 2) (Allowed 2) (create (fun _ => none) (fun _ => none)) tcRun := by
    decide
  ⟨hes, tcache_exact (by decide) (by decide) _ _ _ hes⟩

end

end Tcache

end Skyloft
