import PreloopControl.Lib.SortedMap

/-!
# Eviction in the Order of a Queue

A map that is kept below a bound by taking out entries in the order of a queue. The queue
may be out of step with the map: it may name keys that are gone, and lack keys that are
there, and then the first key of the map is taken. One key may be guarded: where its turn
comes, the entry after it is taken in its place and it goes to the back of the queue. A
companion map loses the entries that the map loses.

Every pass takes one entry as long as there are two, so the loop ends at its bound. The
guarded key is itself taken in the place of itself if it stands second in the queue when
its turn comes.

## Main definitions

* `Store`: The map, its companion and the queue.
* `pass`, `loop`: One eviction, and as many as are needed.
* `TakesItself`: The guarded key is taken in its own place.
* `InStep`: The queue names keys of the map, each once.
* `shrink`: A map is made small enough, some keys being spared as long as possible.

## Theorems

* `pass_spec`: One pass takes one entry.
* `loop_eq`: The loop ends at its bound.
* `live_passes_iff`: What becomes of the guarded key.
* `InStep.passes`: A queue in step stays in step, and the guarded key never takes itself.
* `passes_mapItems`: The values play no part.
* `shrink_spec`: What is left of a shrunk map.
-/

namespace Eviction

variable {K V I : Type} [LinearOrder K]

/-- The map, its companion and the queue. -/
structure Store (K V I : Type) [LinearOrder K] where
  items : SortedMap K V
  companions : SortedMap K I
  order : List K

namespace Store

/-- The key is in the map. -/
def live (s : Store K V I) (k : K) : Bool := (s.items.lookup k).isSome

def size (s : Store K V I) : Nat := s.items.entries.length

/-- The entry is taken out. -/
def evict (k : K) (s : Store K V I) : Store K V I :=
  { s with items := s.items.erase k, companions := s.companions.erase k }

/-- The front of the queue, if it is in the map. -/
def popLive (s : Store K V I) : Option K × Store K V I :=
  match s.order with
  | [] => (none, s)
  | k :: rest => (if s.live k then some k else none, { s with order := rest })

/-- The first key of the map. -/
def firstKey (s : Store K V I) : Option K := s.items.entries.head?.map (·.1)

/-- The first key of the map but one. -/
def firstOther (t : K) (s : Store K V I) : Option K :=
  (s.items.entries.find? fun e => e.1 ≠ t).map (·.1)

end Store

/-- One eviction, and whether the loop goes on. -/
def pass (guard : SortedMap K I → Bool) (t : K) (s : Store K V I) : Store K V I × Bool :=
  let s₁ := s.popLive.2
  match s.popLive.1.or s₁.firstKey with
  | none => (s₁, false)
  | some oldest =>
    if s₁.live oldest = false then (s₁, true)
    else if oldest = t ∧ guard s₁.companions = true then
      let s₂ := s₁.popLive.2
      match s₁.popLive.1.or (s₂.firstOther t) with
      | none => ({ s₂ with order := s₂.order ++ [t] }, false)
      | some next => (({ s₂ with order := s₂.order ++ [t] } : Store K V I).evict next, true)
    else (s₁.evict oldest, true)

/-- Evictions until the bound is kept. -/
def loop (guard : SortedMap K I → Bool) (t : K) (cap : Nat) :
    Nat → Store K V I → Option (Store K V I)
  | 0, _ => none
  | n + 1, s =>
    if cap < s.size then
      match pass guard t s with
      | (s, true) => loop guard t cap n s
      | (s, false) => some s
    else some s

/-- A number of passes. -/
def passes (guard : SortedMap K I → Bool) (t : K) : Nat → Store K V I → Store K V I
  | 0, s => s
  | n + 1, s => passes guard t n (pass guard t s).1

/-- The guarded key stands behind an entry that makes it the next to go. -/
def TakesItself (t : K) (s : Store K V I) : Prop :=
  s.live t = true ∧ ∃ x rest, s.order = x :: t :: rest ∧
    (x = t ∨ s.live x = false ∧ s.firstKey = some t)

/-- The queue names keys of the map, each once. -/
structure InStep (s : Store K V I) : Prop where
  nodup : s.order.Nodup
  live : ∀ k ∈ s.order, s.live k = true

section Passes

variable {g : SortedMap K I → Bool} {t : K} {s : Store K V I}

theorem size_evict {k : K} (h : s.live k = true) : (s.evict k).size + 1 = s.size := by
  rcases Option.isSome_iff_exists.mp h with ⟨v, hv⟩
  have hsum := SortedMap.sum_of_lookup hv fun _ _ => 1
  have hone : ∀ m : SortedMap K V, (m.sum fun _ _ => 1) = m.entries.length := by
    intro m
    simp [SortedMap.sum]
  rw [hone, hone] at hsum
  rw [Store.size, Store.size, hsum, Nat.add_comm]
  rfl

@[simp] theorem live_evict (k j : K) : (s.evict k).live j = (s.live j && decide (j ≠ k)) := by
  unfold Store.live Store.evict
  rw [SortedMap.lookup_erase]
  by_cases hj : k = j
  · rw [if_pos hj]
    simp [hj]
  · rw [if_neg hj]
    simp [Ne.symm hj]

@[simp] theorem live_order (s : Store K V I) (order : List K) (k : K) :
    ({ s with order := order } : Store K V I).live k = s.live k := rfl

theorem live_of_mem {e : K × V} (h : e ∈ s.items.entries) : s.live e.1 = true := by
  rw [Store.live, SortedMap.lookup_of_mem (k := e.1) (v := e.2) h]
  rfl

theorem live_of_firstKey {k : K} (h : s.firstKey = some k) : s.live k = true := by
  rcases Option.map_eq_some_iff.mp h with ⟨e, he, rfl⟩
  exact live_of_mem (List.mem_of_mem_head? he)

theorem live_of_firstOther {k : K} (h : s.firstOther t = some k) : s.live k = true ∧ k ≠ t := by
  rcases Option.map_eq_some_iff.mp h with ⟨e, he, rfl⟩
  exact ⟨live_of_mem (List.mem_of_find?_eq_some he), by simpa using List.find?_some he⟩

/-- Of two entries one has another key. -/
theorem exists_firstOther (h : 2 ≤ s.size) (t : K) : ∃ k, s.firstOther t = some k := by
  cases hfind : s.items.entries.find? fun e => e.1 ≠ t with
  | some e => exact ⟨e.1, by rw [Store.firstOther, hfind]; rfl⟩
  | none =>
      rw [Store.size] at h
      have hsorted := s.items.sorted
      match hentries : s.items.entries with
      | [] => simp [hentries] at h
      | [e] => simp [hentries] at h
      | e :: d :: rest =>
          rw [hentries] at hfind hsorted
          have hall := List.find?_eq_none.mp hfind
          have he : e.1 = t := by simpa using hall e List.mem_cons_self
          have hd : d.1 = t := by simpa using hall d (List.mem_cons_of_mem _ List.mem_cons_self)
          have hlt := (List.pairwise_cons.mp hsorted).1 d List.mem_cons_self
          rw [he, hd] at hlt
          exact absurd hlt (lt_irrefl t)

theorem exists_firstKey (h : 1 ≤ s.size) : ∃ k, s.firstKey = some k := by
  rw [Store.size] at h
  cases hentries : s.items.entries with
  | nil => simp [hentries] at h
  | cons e rest => exact ⟨e.1, by rw [Store.firstKey, hentries]; rfl⟩

/-- The front of the queue is taken off, and stands for itself if it is in the map. -/
theorem popLive_cases (s : Store K V I) :
    (s.order = [] ∧ s.popLive = (none, s)) ∨
      (∃ k rest, s.order = k :: rest ∧ s.live k = true ∧
        s.popLive = (some k, { s with order := rest })) ∨
      ∃ k rest, s.order = k :: rest ∧ s.live k = false ∧
        s.popLive = (none, { s with order := rest }) := by
  unfold Store.popLive
  cases horder : s.order with
  | nil => exact .inl ⟨rfl, rfl⟩
  | cons k rest =>
      cases hlive : s.live k with
      | true => exact .inr (.inl ⟨k, rest, rfl, hlive, by simp [hlive]⟩)
      | false => exact .inr (.inr ⟨k, rest, rfl, hlive, by simp [hlive]⟩)

/-- What a pass takes in the place of the guarded key. -/
theorem next_cases (h : 2 ≤ s.size) : ∃ next order,
    s.popLive.1.or (s.popLive.2.firstOther t) = some next ∧ s.live next = true ∧
      s.popLive.2 = { s with order := order } ∧
      (next = t ↔ s.live t = true ∧ s.order.head? = some t) := by
  rcases popLive_cases s with ⟨horder, hpop⟩ | ⟨k, rest, horder, hlive, hpop⟩ |
    ⟨k, rest, horder, hlive, hpop⟩
  · rcases exists_firstOther h t with ⟨k, hk⟩
    refine ⟨k, s.order, by rw [hpop]; exact hk, (live_of_firstOther hk).1, by rw [hpop], ?_⟩
    rw [horder]
    exact ⟨fun he => absurd he (live_of_firstOther hk).2, fun he => by cases he.2⟩
  · refine ⟨k, rest, by rw [hpop]; rfl, hlive, by rw [hpop], ?_⟩
    rw [horder, List.head?_cons, Option.some.injEq]
    exact ⟨fun he => ⟨he ▸ hlive, he⟩, fun he => he.2⟩
  · rcases exists_firstOther h t with ⟨j, hj⟩
    have hj' : ({ s with order := rest } : Store K V I).firstOther t = some j := hj
    refine ⟨j, rest, by rw [hpop]; exact hj', (live_of_firstOther hj).1, by rw [hpop], ?_⟩
    rw [horder, List.head?_cons, Option.some.injEq]
    refine ⟨fun he => absurd he (live_of_firstOther hj).2, fun he => ?_⟩
    rw [he.2, he.1] at hlive
    cases hlive

/-- One pass takes one entry, and the guarded key only in its own place. -/
theorem pass_spec (h : 2 ≤ s.size) : ∃ victim order, s.live victim = true ∧
    pass g t s = ({ s.evict victim with order := order }, true) ∧
      (g s.companions = true → (victim = t ↔ TakesItself t s)) := by
  -- whose turn it is, and what is left of the queue
  have hturn : ∃ oldest rest, s.popLive.1.or s.popLive.2.firstKey = some oldest ∧
      s.live oldest = true ∧ s.popLive.2 = { s with order := rest } ∧
      (oldest = t → (TakesItself t s ↔ s.live t = true ∧ rest.head? = some t)) ∧
      (oldest ≠ t → ¬ TakesItself t s) := by
    rcases popLive_cases s with ⟨horder, hpop⟩ | ⟨k, rest, horder, hlive, hpop⟩ |
      ⟨k, rest, horder, hlive, hpop⟩
    · rcases exists_firstKey (Nat.le_of_succ_le h) with ⟨k, hk⟩
      have hnot : ¬ TakesItself t s := by
        rintro ⟨-, x, rest, hx, -⟩
        rw [horder] at hx
        cases hx
      refine ⟨k, s.order, by rw [hpop]; exact hk, live_of_firstKey hk, by rw [hpop], ?_,
        fun _ => hnot⟩
      intro _
      rw [horder]
      exact ⟨fun ht => absurd ht hnot, fun ht => by cases ht.2⟩
    · refine ⟨k, rest, by rw [hpop]; rfl, hlive, by rw [hpop], ?_, ?_⟩
      · rintro rfl
        constructor
        · rintro ⟨ht, x, rest', hx, -⟩
          rw [horder] at hx
          rw [(List.cons.inj hx).2]
          exact ⟨ht, rfl⟩
        · rintro ⟨ht, hhead⟩
          rcases List.head?_eq_some_iff.mp hhead with ⟨rest', rfl⟩
          exact ⟨ht, k, rest', horder, .inl rfl⟩
      · rintro hne ⟨-, x, rest', hx, hkind⟩
        rw [horder] at hx
        rcases List.cons.inj hx with ⟨rfl, -⟩
        rcases hkind with rfl | ⟨hdead, -⟩
        · exact hne rfl
        · rw [hlive] at hdead
          cases hdead
    · rcases exists_firstKey (Nat.le_of_succ_le h) with ⟨j, hj⟩
      have hj' : ({ s with order := rest } : Store K V I).firstKey = some j := hj
      refine ⟨j, rest, by rw [hpop]; exact hj', live_of_firstKey hj, by rw [hpop], ?_, ?_⟩
      · rintro rfl
        constructor
        · rintro ⟨ht, x, rest', hx, -⟩
          rw [horder] at hx
          rw [(List.cons.inj hx).2]
          exact ⟨ht, rfl⟩
        · rintro ⟨ht, hhead⟩
          rcases List.head?_eq_some_iff.mp hhead with ⟨rest', rfl⟩
          exact ⟨ht, k, rest', horder, .inr ⟨hlive, hj⟩⟩
      · rintro hne ⟨ht, x, rest', hx, hkind⟩
        rw [horder] at hx
        rcases List.cons.inj hx with ⟨rfl, -⟩
        rcases hkind with rfl | ⟨-, hfirst⟩
        · rw [ht] at hlive
          cases hlive
        · rw [hj] at hfirst
          exact hne (Option.some.inj hfirst)
  rcases hturn with ⟨oldest, rest, hor, hlive, hpop, hself, hother⟩
  have hlive' : ({ s with order := rest } : Store K V I).live oldest = true := hlive
  rw [hpop] at hor
  by_cases hguard : oldest = t ∧ g s.companions = true
  · rcases hguard with ⟨rfl, hguard⟩
    rcases next_cases (t := oldest) (s := { s with order := rest }) h with
      ⟨next, order, hnext, hnextlive, hpop', hiff⟩
    refine ⟨next, order ++ [oldest], hnextlive, ?_, fun _ => hiff.trans (hself rfl).symm⟩
    rw [pass]
    simp only [hpop, hor, hlive', hguard, Bool.true_eq_false, if_false, and_self, if_true]
    rw [hnext]
    simp only [hpop']
    rfl
  · refine ⟨oldest, rest, hlive, ?_, fun hup => ?_⟩
    · rw [pass]
      simp only [hpop, hor, hlive', hguard, Bool.true_eq_false, if_false]
      rfl
    · have hne : oldest ≠ t := fun he => hguard ⟨he, hup⟩
      exact ⟨fun he => absurd he hne, fun ht => absurd ht (hother hne)⟩

theorem InStep.not_takesItself (h : InStep s) : ¬ TakesItself t s := by
  rintro ⟨-, x, rest, horder, hkind⟩
  have hnodup := h.nodup
  rw [horder] at hnodup
  rcases hkind with rfl | ⟨hdead, -⟩
  · exact (List.nodup_cons.mp hnodup).1 List.mem_cons_self
  · rw [h.live x (horder ▸ List.mem_cons_self)] at hdead
    cases hdead

/-- What is taken is no longer in the queue. -/
theorem InStep.of_evict {victim : K} {order : List K} (hnodup : order.Nodup)
    (hlive : ∀ k ∈ order, s.live k = true ∧ k ≠ victim) :
    InStep ({ s.evict victim with order := order } : Store K V I) := by
  refine ⟨hnodup, fun k hk => ?_⟩
  rw [live_order, live_evict, (hlive k hk).1, decide_eq_true (hlive k hk).2]
  rfl

/-- One pass over an empty queue, where the first key of the map has its turn. -/
theorem InStep.pass_of_nil (horder : s.order = []) : InStep (pass g t s).1 := by
  have hpop : s.popLive = (none, s) := by rw [Store.popLive, horder]
  have hempty : ∀ k ∈ s.order, False := fun k hk => by
    rw [horder] at hk
    cases hk
  have hnone : ∀ victim, InStep ({ s.evict victim with order := s.order } : Store K V I) :=
    fun victim => .of_evict (horder ▸ List.nodup_nil) fun k hk => (hempty k hk).elim
  rw [pass]
  simp only [hpop, Option.none_or]
  -- nothing is queued, so the first key of the map is taken, or the next one if it is guarded
  cases hfirst : s.firstKey with
  | none => exact ⟨horder ▸ List.nodup_nil, fun k hk => (hempty k hk).elim⟩
  | some oldest =>
      have hlive := live_of_firstKey hfirst
      simp only [hlive, Bool.true_eq_false, if_false]
      by_cases hguard : oldest = t ∧ g s.companions = true
      · rw [if_pos hguard, ← hguard.1]
        simp only [horder, List.nil_append]
        cases hother : s.firstOther oldest with
        | none =>
            refine ⟨List.nodup_singleton oldest, fun k hk => ?_⟩
            rw [List.mem_singleton.mp hk]
            exact hlive
        | some next =>
            refine InStep.of_evict (List.nodup_singleton oldest) fun k hk => ?_
            rw [List.mem_singleton.mp hk]
            exact ⟨hlive, (live_of_firstOther hother).2.symm⟩
      · rw [if_neg hguard]
        exact hnone oldest

/-- One pass keeps the queue in step. -/
theorem InStep.pass (h : InStep s) : InStep (pass g t s).1 := by
  -- an empty queue stays in step; else its head is live and goes, unless it is guarded
  rcases hqueue : s.order with _ | ⟨k, rest⟩
  · exact .pass_of_nil hqueue
  have hnodup := List.nodup_cons.mp (hqueue ▸ h.nodup)
  have hlive : s.live k = true := h.live k (hqueue ▸ List.mem_cons_self)
  have hrest : ∀ j ∈ rest, s.live j = true ∧ j ≠ k := fun j hj =>
    ⟨h.live j (hqueue ▸ List.mem_cons_of_mem k hj), fun he => hnodup.1 (he ▸ hj)⟩
  have hpop : s.popLive = (some k, { s with order := rest }) := by
    rw [Store.popLive, hqueue]
    simp only [hlive, if_true]
  rw [Eviction.pass]
  simp only [hpop, Option.some_or, live_order, hlive, Bool.true_eq_false, if_false]
  by_cases hguard : k = t ∧ g s.companions = true
  · -- the next of the queue goes in the place of the guarded key
    rw [if_pos hguard, ← hguard.1]
    -- the guarded key goes behind the next of the queue, or behind another live key if there is
    -- none
    rcases hbehind : rest with _ | ⟨next, rest'⟩
    · subst hbehind
      have hpop' : ({ s with order := [] } : Store K V I).popLive =
          (none, { s with order := [] }) := rfl
      simp only [hpop', Option.none_or, List.nil_append]
      cases hother : ({ s with order := [] } : Store K V I).firstOther k with
      | none =>
          refine ⟨List.nodup_singleton k, fun j hj => ?_⟩
          rw [List.mem_singleton.mp hj]
          exact hlive
      | some next =>
          have hnext : next ≠ k := (live_of_firstOther hother).2
          refine InStep.of_evict (s := s) (List.nodup_singleton k) fun j hj => ?_
          rw [List.mem_singleton.mp hj]
          exact ⟨hlive, hnext.symm⟩
    · subst hbehind
      have hnext := hrest next List.mem_cons_self
      have hnodup' := List.nodup_cons.mp hnodup.2
      have hpop' : ({ s with order := next :: rest' } : Store K V I).popLive =
          (some next, { s with order := rest' }) := by
        rw [Store.popLive]
        simp only [live_order, hnext.1, if_true]
      simp only [hpop', Option.some_or]
      refine InStep.of_evict (s := s) ?_ fun j hj => ?_
      · refine List.nodup_append.mpr ⟨hnodup'.2, List.nodup_singleton k, fun j hj l hl he => ?_⟩
        rw [List.mem_singleton.mp hl] at he
        exact (hrest j (List.mem_cons_of_mem next hj)).2 he
      · rcases List.mem_append.mp hj with hj | hj
        · exact ⟨(hrest j (List.mem_cons_of_mem next hj)).1, fun he => hnodup'.1 (he ▸ hj)⟩
        · rw [List.mem_singleton.mp hj]
          exact ⟨hlive, hnext.2.symm⟩
  · rw [if_neg hguard]
    exact InStep.of_evict (s := s) hnodup.2 hrest

end Passes

/-! ## Loops -/

section Loops

variable {g : SortedMap K I → Bool} {t : K} {s : Store K V I}

theorem passes_succ (g : SortedMap K I → Bool) (t : K) (n : Nat) (s : Store K V I) :
    passes g t (n + 1) s = (pass g t (passes g t n s)).1 := by
  induction n generalizing s with
  | zero => rfl
  | succ n ih => exact ih (pass g t s).1

theorem InStep.passes (h : InStep s) (n : Nat) : InStep (passes g t n s) := by
  induction n with
  | zero => exact h
  | succ n ih =>
      rw [passes_succ]
      exact ih.pass

/-- As many entries are gone as there were passes. -/
theorem size_passes {n : Nat} (h : n < s.size) :
    (passes g t n s).size + n = s.size := by
  induction n with
  | zero => rfl
  | succ n ih =>
      have hsize := ih (by omega)
      have htwo : 2 ≤ (passes g t n s).size := by omega
      rcases pass_spec (g := g) (t := t) htwo with ⟨victim, order, hlive, hpass, -⟩
      have hevict := size_evict hlive
      rw [passes_succ, hpass]
      change ((passes g t n s).evict victim).size + (n + 1) = s.size
      omega

/-- The loop ends at its bound. -/
theorem loop_eq {cap fuel : Nat} (hcap : 1 ≤ cap) (h : s.size - cap < fuel) :
    loop g t cap fuel s = some (passes g t (s.size - cap) s) := by
  induction fuel generalizing s with
  | zero => omega
  | succ fuel ih =>
      unfold loop
      by_cases hlarge : cap < s.size
      · rw [if_pos hlarge]
        rcases pass_spec (g := g) (t := t) (s := s) (by omega) with
          ⟨victim, order, hlive, hpass, -⟩
        have hsize : ({ s.evict victim with order := order } : Store K V I).size + 1 = s.size :=
          size_evict hlive
        generalize ({ s.evict victim with order := order } : Store K V I) = s' at hpass hsize
        rw [hpass, show s.size - cap = s'.size - cap + 1 by omega, passes, hpass]
        exact ih (by omega)
      · rw [if_neg hlarge, Nat.sub_eq_zero_of_le (not_lt.mp hlarge)]
        rfl

/-- An entry stays with its companion, or goes with it. -/
theorem lookup_passes {n : Nat} (h : n < s.size) (k : K) :
    ((passes g t n s).items.lookup k = s.items.lookup k ∧
      (passes g t n s).companions.lookup k = s.companions.lookup k) ∨
    (s.live k = true ∧ (passes g t n s).items.lookup k = none ∧
      (passes g t n s).companions.lookup k = none) := by
  induction n with
  | zero => exact .inl ⟨rfl, rfl⟩
  | succ n ih =>
      have hsize := size_passes (g := g) (t := t) (s := s) (n := n) (by omega)
      rcases pass_spec (g := g) (t := t) (s := passes g t n s) (by omega) with
        ⟨victim, order, hlive, hpass, -⟩
      rw [passes_succ, hpass]
      simp only [Store.evict, SortedMap.lookup_erase]
      by_cases hk : victim = k
      · rw [if_pos hk, if_pos hk]
        rcases ih (by omega) with ⟨hitems, -⟩ | ⟨hlive', -⟩
        · refine .inr ⟨?_, rfl, rfl⟩
          rw [Store.live, ← hitems, ← hk]
          exact hlive
        · exact .inr ⟨hlive', rfl, rfl⟩
      · rw [if_neg hk, if_neg hk]
        exact ih (by omega)

/-- The guarded key stays until it is taken in its own place. -/
theorem live_passes_iff {n : Nat} (h : n < s.size)
    (hguard : ∀ m k, k ≠ t → g (m.erase k) = g m) (hs : g s.companions = true)
    (ht : s.live t = true) :
    (passes g t n s).live t = true ↔ ∀ m < n, ¬ TakesItself t (passes g t m s) := by
  -- as long as the key is there, its g is up
  have hrun : ((passes g t n s).live t = true → g (passes g t n s).companions = true) ∧
      ((passes g t n s).live t = true ↔
        ∀ m < n, ¬ TakesItself t (passes g t m s)) := by
    induction n with
    | zero => exact ⟨fun _ => hs, iff_of_true ht fun m hm => absurd hm (Nat.not_lt_zero m)⟩
    | succ n ih =>
        rcases ih (by omega) with ⟨hup, hiff⟩
        have hsize := size_passes (g := g) (t := t) (s := s) (n := n) (by omega)
        rcases pass_spec (g := g) (t := t) (s := passes g t n s) (by omega) with
          ⟨victim, order, -, hpass, hvictim⟩
        rw [Nat.forall_lt_succ_right, ← hiff, passes_succ, hpass, live_order, live_evict,
          Bool.and_eq_true, decide_eq_true_iff]
        refine ⟨?_, ?_⟩
        · rintro ⟨hlive, hne⟩
          exact (hguard _ _ (Ne.symm hne)).trans (hup hlive)
        · refine and_congr_right fun hlive => ?_
          rw [← hvictim (hup hlive)]
          exact not_congr eq_comm
  exact hrun.2

end Loops

/-! ## Other values -/

/-- Other values under the same keys. -/
def Store.mapItems {W : Type} (f : V → W) (s : Store K V I) : Store K W I :=
  { s with items := s.items.mapValues f }

section MapItems

variable {W : Type} (f : V → W)

@[simp] theorem live_mapItems (s : Store K V I) (k : K) :
    (s.mapItems f).live k = s.live k := by
  unfold Store.live Store.mapItems
  rw [SortedMap.lookup_mapValues, Option.isSome_map]

@[simp] theorem firstKey_mapItems (s : Store K V I) : (s.mapItems f).firstKey = s.firstKey := by
  unfold Store.firstKey Store.mapItems SortedMap.mapValues
  rw [List.head?_map, Option.map_map]
  rfl

@[simp] theorem firstOther_mapItems (t : K) (s : Store K V I) :
    (s.mapItems f).firstOther t = s.firstOther t := by
  unfold Store.firstOther Store.mapItems SortedMap.mapValues
  rw [List.find?_map, Option.map_map]
  rfl

@[simp] theorem size_mapItems (s : Store K V I) : (s.mapItems f).size = s.size :=
  List.length_map _

theorem evict_mapItems (k : K) (s : Store K V I) :
    (s.mapItems f).evict k = (s.evict k).mapItems f := by
  have herase : (s.items.mapValues f).erase k = (s.items.erase k).mapValues f := by
    apply SortedMap.ext_lookup
    intro j
    simp only [SortedMap.lookup_erase, SortedMap.lookup_mapValues]
    split <;> rfl
  simp only [Store.evict, Store.mapItems, herase]

theorem popLive_mapItems (s : Store K V I) :
    (s.mapItems f).popLive = (s.popLive.1, s.popLive.2.mapItems f) := by
  unfold Store.popLive
  cases horder : s.order with
  | nil => simp only [Store.mapItems, horder]
  | cons k rest =>
      have horder' : (s.mapItems f).order = k :: rest := horder
      simp only [horder', live_mapItems]
      rfl

/-- The values play no part in what is taken. -/
theorem pass_mapItems (g : SortedMap K I → Bool) (t : K) (s : Store K V I) :
    pass g t (s.mapItems f) = ((pass g t s).1.mapItems f, (pass g t s).2) := by
  unfold pass
  simp only [popLive_mapItems, firstKey_mapItems, live_mapItems]
  cases s.popLive.1.or s.popLive.2.firstKey with
  | none => rfl
  | some oldest =>
      simp only
      by_cases hlive : s.popLive.2.live oldest = false
      · rw [if_pos hlive, if_pos hlive]
      · rw [if_neg hlive, if_neg hlive]
        by_cases hguard : oldest = t ∧ g s.popLive.2.companions = true
        · rw [if_pos (show oldest = t ∧ g (s.popLive.2.mapItems f).companions = true from
            hguard), if_pos hguard]
          simp only [firstOther_mapItems]
          cases s.popLive.2.popLive.1.or (s.popLive.2.popLive.2.firstOther t) with
          | none => rfl
          | some next =>
              exact Prod.ext (evict_mapItems f next
                { s.popLive.2.popLive.2 with
                  order := s.popLive.2.popLive.2.order ++ [t] }) rfl
        · rw [if_neg (show ¬ (oldest = t ∧ g (s.popLive.2.mapItems f).companions = true) from
            hguard), if_neg hguard]
          exact Prod.ext (evict_mapItems f oldest s.popLive.2) rfl

theorem passes_mapItems (g : SortedMap K I → Bool) (t : K) (n : Nat) (s : Store K V I) :
    passes g t n (s.mapItems f) = (passes g t n s).mapItems f := by
  induction n generalizing s with
  | zero => rfl
  | succ n ih =>
      rw [passes, passes, pass_mapItems]
      exact ih (pass g t s).1

theorem takesItself_mapItems {t : K} {s : Store K V I} :
    TakesItself t (s.mapItems f) ↔ TakesItself t s := by
  unfold TakesItself
  simp only [live_mapItems, firstKey_mapItems]
  rfl

end MapItems

/-! ## Shrinking -/

/-- The first key that is not spared, or the first key. -/
def victim (spared : K → Bool) (m : SortedMap K V) : Option K :=
  ((m.entries.find? fun e => !spared e.1).map (·.1)).or (m.entries.head?.map (·.1))

/-- Entries are taken out while the map is too large. -/
def shrink (tooLarge : SortedMap K V → Bool) (spared : K → Bool) :
    Nat → SortedMap K V → Option (SortedMap K V)
  | 0, _ => none
  | n + 1, m =>
    if tooLarge m then
      match victim spared m with
      | none => some m
      | some k => shrink tooLarge spared n (m.erase k)
    else some m

/-- What is left of a map, the spared entries going last. -/
structure Shrunk (spared : K → Bool) (m m' : SortedMap K V) : Prop where
  kept : ∀ {k v}, m'.lookup k = some v → m.lookup k = some v
  last : ∀ {k j}, spared k = true → (m.lookup k).isSome = true → m'.lookup k = none →
    (m'.lookup j).isSome = true → spared j = true

section Shrink

variable {tooLarge : SortedMap K V → Bool} {p : K → Bool} {m : SortedMap K V}

theorem Shrunk.refl (m : SortedMap K V) : Shrunk p m m :=
  ⟨id, fun {k j} _ hk hnone _ => by rw [hnone] at hk; cases hk⟩

theorem Shrunk.trans {m₁ m₂ : SortedMap K V} (h₁ : Shrunk p m m₁)
    (h₂ : Shrunk p m₁ m₂) : Shrunk p m m₂ := by
  refine ⟨fun h => h₁.kept (h₂.kept h), fun {k j} hk hin hnone hj => ?_⟩
  rcases Option.isSome_iff_exists.mp hj with ⟨v, hv⟩
  cases hmid : m₁.lookup k with
  | none =>
      exact h₁.last hk hin hmid (by rw [h₂.kept hv]; rfl)
  | some w => exact h₂.last hk (by rw [hmid]; rfl) hnone hj

/-- One entry is taken, a p one when there is no other. -/
theorem victim_spec (h : m.entries ≠ []) : ∃ k, victim p m = some k ∧
    (m.lookup k).isSome = true ∧
      (p k = true → ∀ j, (m.lookup j).isSome = true → p j = true) := by
  unfold victim
  cases hfind : m.entries.find? fun e => !p e.1 with
  | some e =>
      refine ⟨e.1, rfl, ?_, fun hs => ?_⟩
      · rw [SortedMap.lookup_of_mem (k := e.1) (v := e.2) (List.mem_of_find?_eq_some hfind)]
        rfl
      · have hnot := List.find?_some hfind
        simp [hs] at hnot
  | none =>
      rcases List.exists_cons_of_ne_nil h with ⟨e, rest, hentries⟩
      refine ⟨e.1, by rw [hentries]; rfl, ?_, fun _ j hj => ?_⟩
      · rw [SortedMap.lookup_of_mem (k := e.1) (v := e.2) (by rw [hentries]; exact .head _)]
        rfl
      · rcases Option.isSome_iff_exists.mp hj with ⟨v, hv⟩
        simpa using List.find?_eq_none.mp hfind (j, v) (SortedMap.mem_of_lookup hv)

theorem length_erase {k : K} (h : (m.lookup k).isSome = true) :
    (m.erase k).entries.length + 1 = m.entries.length :=
  size_evict (s := (⟨m, ∅, []⟩ : Store K V Unit)) h

theorem shrunk_erase {k : K}
    (h : p k = true → ∀ j, (m.lookup j).isSome = true → p j = true) :
    Shrunk p m (m.erase k) := by
  refine ⟨fun {j v} hj => ?_, fun {i j} hi hin hnone hj => ?_⟩
  · rw [SortedMap.lookup_erase] at hj
    by_cases hk : k = j
    · rw [if_pos hk] at hj
      cases hj
    · rwa [if_neg hk] at hj
  · rw [SortedMap.lookup_erase] at hnone hj
    by_cases hk : k = i
    · refine h (hk ▸ hi) j ?_
      by_cases hkj : k = j
      · rw [if_pos hkj] at hj
        cases hj
      · rwa [if_neg hkj] at hj
    · rw [if_neg hk] at hnone
      rw [hnone] at hin
      cases hin

/-- The map is shrunk until it is small enough. -/
theorem shrink_spec (hlarge : ∀ m : SortedMap K V, tooLarge m = true → m.entries ≠ []) {fuel : Nat}
    (h : m.entries.length < fuel) : ∃ m', (∀ fuel, m.entries.length < fuel →
      shrink tooLarge p fuel m = some m') ∧ tooLarge m' = false ∧
        m'.entries.length ≤ m.entries.length ∧ Shrunk p m m' := by
  induction fuel generalizing m with
  | zero => omega
  | succ n ih =>
      cases hm : tooLarge m with
      | false =>
          refine ⟨m, fun fuel hfuel => ?_, hm, le_rfl, .refl m⟩
          cases fuel with
          | zero => omega
          | succ fuel =>
              unfold shrink
              rw [hm]
              rfl
      | true =>
          rcases victim_spec (p := p) (hlarge m hm) with ⟨k, hk, hin, hlast⟩
          have hlen := length_erase hin
          rcases ih (m := m.erase k) (by omega) with ⟨m', hrun, hdone, hle, hshrunk⟩
          refine ⟨m', fun fuel hfuel => ?_, hdone, by omega, (shrunk_erase hlast).trans hshrunk⟩
          cases fuel with
          | zero => omega
          | succ fuel =>
              unfold shrink
              rw [hm, hk]
              exact hrun fuel (by omega)

end Shrink

end Eviction
