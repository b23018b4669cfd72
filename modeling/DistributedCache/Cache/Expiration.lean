import DistributedCache.Cache.Operations

/-!
# The expiration heap

Every put with a lifetime pushes a ticket, the expiry time with the key, and only a cleanup pass
pops tickets, those that have come due. So the heap has the ticket of every entry with a lifetime,
next to stale tickets of entries that were overwritten, deleted or evicted. A pass therefore drops
exactly the expired entries; and the heap is as long as the lifetimes and the rate of the puts
make it, whatever the capacity.

Source: `distributed_cache/cache/store.py`, `put` and `_cleanup_worker`.

## Main definitions

* `CacheStore.ticket` : the ticket that an operation pushes.
* `CacheStore.Ticketed` : the heap is in order and has the ticket of every entry.
* `CacheStore.CleanedEvery` : a run with a cleanup pass in every interval.

## Main results

* `CacheStore.Ticketed.perform` : every operation keeps the tickets.
* `CacheStore.cleanup_collects_expired` : what a cleanup pass leaves.
* `CacheStore.heap_bounded_by_recent_puts` : how long the heap can be.
-/

namespace DistributedCache

open Library

variable {V : Type*}

namespace CacheStore

instance : Std.Total ticketLe where
  total p q := by
    rcases lt_trichotomy p.1 q.1 with h | h | h
    · exact Or.inl (Or.inl h)
    · rcases String.le_total p.2 q.2 with hle | hle
      · exact Or.inl (Or.inr ⟨h, hle⟩)
      · exact Or.inr (Or.inr ⟨h.symm, hle⟩)
    · exact Or.inr (Or.inl h)

instance : IsTrans (Time × String) ticketLe where
  trans p q r hpq hqr := by
    rcases hpq with hpq | ⟨hpq, hpq'⟩ <;> rcases hqr with hqr | ⟨hqr, hqr'⟩
    · exact Or.inl (hpq.trans hqr)
    · exact Or.inl (hqr ▸ hpq)
    · exact Or.inl (hpq ▸ hqr)
    · exact Or.inr ⟨hpq.trans hqr, String.le_trans hpq' hqr'⟩

/-- The ticket that an operation pushes: that of a put with a positive lifetime. -/
def ticket (now : Time) : StoreOp V → Option (Time × String)
  | .put key _ (some ttlSeconds) => if 0 < ttlSeconds then some (now + ttlSeconds, key) else none
  | .put _ _ none | .get _ | .delete _ | .clear | .items | .snapshot | .cleanup => none

/-- A cleanup pass pops the due tickets, and any other operation pushes its ticket if it has one. -/
theorem expirationHeap_perform (s : CacheStore V) (now : Time) (op : StoreOp V) :
    (s.perform now op).expirationHeap = match op with
      | .cleanup => s.expirationHeap.dropWhile fun p => p.1 ≤ now
      | op => (ticket now op).elim s.expirationHeap fun p =>
          s.expirationHeap.orderedInsert ticketLe p := by
  cases op with
  | put key value ttlSeconds =>
    cases ttlSeconds with
    | none => rfl
    | some ttlSeconds =>
      dsimp only
      rw [perform, put, ticket]
      split_ifs with h h' h'
      · exact absurd h' (not_lt.mpr h)
      · rfl
      · rfl
      · exact absurd (not_le.mp h) h'
  | get key =>
    rw [perform, get]
    cases s.entries.get? key with
    | none => rfl
    | some entry =>
      dsimp only
      split_ifs <;> rfl
  | delete key => rfl
  | clear => rfl
  | items => rfl
  | snapshot => rfl
  | cleanup =>
    change (cleanupLoop now s.expirationHeap s.entries).1 = _
    rw [cleanupLoop_eq]

/-- The heap is in order, and has the ticket of every entry with a lifetime. -/
structure Ticketed (s : CacheStore V) : Prop where
  sorted : s.expirationHeap.Pairwise ticketLe
  mem_heap : ∀ key entry, s.entries.get? key = some entry → ∀ expiresAt ∈ entry.expiresAt,
    (expiresAt, key) ∈ s.expirationHeap

variable {s : CacheStore V} {now : Time}

theorem Ticketed.init {n : ℕ} (hn : 0 < n) : (init n hn : CacheStore V).Ticketed where
  sorted := List.Pairwise.nil
  mem_heap key entry h := by cases h

/-- In a heap that is in order the due tickets are in front. -/
theorem dropWhile_due_eq_filter {heap : List (Time × String)} (h : heap.Pairwise ticketLe)
    (now : Time) : (heap.dropWhile fun p => p.1 ≤ now) = heap.filter fun p => now < p.1 := by
  induction heap with
  | nil => rfl
  | cons p heap ih =>
    obtain ⟨hp, hheap⟩ := List.pairwise_cons.mp h
    by_cases hdue : p.1 ≤ now
    · rw [List.dropWhile_cons_of_pos (by simpa using hdue), ih hheap,
        List.filter_cons_of_neg (by simpa using hdue)]
    · have hlater : ∀ q ∈ heap, now < q.1 := by
        intro q hq
        rcases hp q hq with hlt | ⟨heq, -⟩
        · exact (not_le.mp hdue).trans hlt
        · exact heq ▸ not_le.mp hdue
      rw [List.dropWhile_cons_of_neg (by simpa using hdue),
        List.filter_cons_of_pos (by simpa using hdue),
        List.filter_eq_self.mpr fun q hq => decide_eq_true (hlater q hq)]

/-- The tickets that a cleanup pass leaves have not come due. -/
theorem Ticketed.expirationHeap_cleanup (h : s.Ticketed) (now : Time) :
    (s.cleanup now).expirationHeap = s.expirationHeap.filter fun p => now < p.1 := by
  have hheap := expirationHeap_perform s now .cleanup
  rw [← dropWhile_due_eq_filter h.sorted]
  exact hheap

theorem mem_dueKeys {heap : List (Time × String)} (h : heap.Pairwise ticketLe)
    {now expiresAt : Time} {key : String} (hmem : (expiresAt, key) ∈ heap)
    (hdue : expiresAt ≤ now) : key ∈ dueKeys now heap := by
  have hsplit :=
    List.takeWhile_append_dropWhile (p := fun p : Time × String => p.1 ≤ now) (l := heap)
  rw [← hsplit, dropWhile_due_eq_filter h, List.mem_append] at hmem
  refine List.mem_map.mpr ⟨_, hmem.resolve_right fun hlater => ?_, rfl⟩
  exact (of_decide_eq_true (List.mem_filter.mp hlater).2).not_ge hdue

/-- A cleanup pass drops exactly the expired entries: each has its ticket in the heap, and a stale
ticket takes no entry along that has not expired. -/
theorem Ticketed.toList_cleanup (h : s.Ticketed) (now : Time) : (s.cleanup now).entries.toList =
    s.entries.toList.filter fun p => !p.2.isExpired now := by
  rw [entries_cleanup_eq, OrderedDict.toList_filter]
  refine List.filter_congr fun p hp => ?_
  cases hexpired : p.2.isExpired now with
  | false => simp
  | true =>
    rw [CacheEntry.isExpired] at hexpired
    cases hexpires : p.2.expiresAt with
    | none => rw [hexpires] at hexpired; cases hexpired
    | some expiresAt =>
      rw [hexpires] at hexpired
      have hmem := h.mem_heap p.1 p.2 (OrderedDict.get?_eq_some_iff.mpr hp) expiresAt hexpires
      simp [mem_dueKeys h.sorted hmem (of_decide_eq_true hexpired)]

/-- A ticket of the heap stays, and the ticket of an operation is pushed, unless the operation is
a cleanup pass. -/
theorem mem_expirationHeap_perform {op : StoreOp V} (hop : op ≠ .cleanup) {p : Time × String} :
    p ∈ (s.perform now op).expirationHeap ↔ p ∈ ticket now op ∨ p ∈ s.expirationHeap := by
  rw [expirationHeap_perform]
  split
  · exact absurd rfl hop
  · cases ticket now op with
    | none => simp
    | some q =>
      rw [Option.elim_some, List.mem_orderedInsert, Option.mem_some_iff, eq_comm]

/-- Every operation keeps the tickets. -/
theorem Ticketed.perform (h : s.Ticketed) (now : Time) (op : StoreOp V) :
    (s.perform now op).Ticketed := by
  constructor
  · rw [expirationHeap_perform]
    split
    · exact h.sorted.sublist (List.dropWhile_sublist _)
    · cases ticket now op with
      | none => exact h.sorted
      | some q => exact h.sorted.orderedInsert q _
  · intro key entry hentry expiresAt hexpires
    by_cases hop : op = .cleanup
    · subst hop
      have hmem := List.mem_filter.mp
        (h.toList_cleanup now ▸ OrderedDict.get?_eq_some_iff.mp hentry)
      have hticket := h.mem_heap key entry (OrderedDict.get?_eq_some_iff.mpr hmem.1) expiresAt
        hexpires
      change _ ∈ (s.cleanup now).expirationHeap
      rw [h.expirationHeap_cleanup]
      refine List.mem_filter.mpr ⟨hticket, ?_⟩
      have hlive := hmem.2
      rw [CacheEntry.isExpired, Option.mem_def.mp hexpires] at hlive
      simpa using hlive
    · rw [mem_expirationHeap_perform hop]
      rcases get?_perform hentry with hold | hwritten
      · exact Or.inr (h.mem_heap key entry hold expiresAt hexpires)
      · refine Or.inl ?_
        cases op with
        | put k value ttlSeconds =>
          rw [written] at hwritten
          split_ifs at hwritten with hk
          subst hk
          cases ttlSeconds with
          | none =>
            obtain rfl := Option.some.inj (Option.some.inj hwritten)
            cases hexpires
          | some ttlSeconds =>
            rw [putEntry] at hwritten
            split_ifs at hwritten with hpos
            · cases hwritten
            · obtain rfl := Option.some.inj (Option.some.inj hwritten)
              obtain rfl := Option.some.inj hexpires
              rw [ticket, if_pos (not_le.mp hpos)]
              rfl
        | delete k =>
          rw [written] at hwritten
          split_ifs at hwritten
          cases hwritten
        | clear => cases hwritten
        | get k => cases hwritten
        | items => cases hwritten
        | snapshot => cases hwritten
        | cleanup => cases hwritten

theorem Ticketed.run (h : s.Ticketed) (ops : List (Time × StoreOp V)) : (s.run ops).Ticketed := by
  induction ops using List.reverseRecOn with
  | nil => exact h
  | append_singleton ops op ih =>
    rw [run_concat]
    exact ih.perform op.1 op.2

/-- **Cleanup collects exactly the expired entries.** After any run, a cleanup pass at `t` leaves
the entries that have not expired, in their recency order, and no ticket that has come due. -/
theorem cleanup_collects_expired {n : ℕ} (hn : 0 < n) (ops : List (Time × StoreOp V)) (t : Time) :
    (((init n hn).run ops).cleanup t).entries.toList =
      ((init n hn).run ops).entries.toList.filter (fun p => !p.2.isExpired t) ∧
    ∀ p ∈ (((init n hn).run ops).cleanup t).expirationHeap, t < p.1 := by
  have h := (Ticketed.init hn).run ops
  refine ⟨h.toList_cleanup t, fun p hp => ?_⟩
  rw [h.expirationHeap_cleanup] at hp
  exact of_decide_eq_true (List.mem_filter.mp hp).2

/-- `cleanup_collects_expired` where `"a"` was put again with a longer lifetime: its stale ticket
comes due and takes nothing along. -/
theorem cleanup_collects_expired_put_again :
    (((init 2 Nat.two_pos).run [(0, .put "a" (some 1) (some 1)), (0, .put "b" (some 2) (some 2)),
        (0, .put "a" (some 3) (some 9))]).cleanup 5).entries.toList =
      ([("a", ⟨some 3, some 9⟩)] : List (String × CacheEntry ℕ)) :=
  (cleanup_collects_expired Nat.two_pos _ 5).1.trans (by decide +kernel)

/-! ### The length of the heap -/

/-- The tickets that a run pushes. -/
def tickets (ops : List (Time × StoreOp V)) : List (Time × String) :=
  ops.filterMap fun op => ticket op.1 op.2

/-- Between `start` and `t` the run has a cleanup pass in every interval of the given length. -/
def CleanedEvery (interval start t : Time) (ops : List (Time × StoreOp V)) : Prop :=
  ∀ u, start ≤ u → u + interval ≤ t → ∃ τ, (τ, .cleanup) ∈ ops ∧ u ≤ τ ∧ τ ≤ u + interval

/-- The heap has tickets of the run only, none of them more often than it was pushed. -/
theorem subperm_tickets {n : ℕ} (hn : 0 < n) (ops : List (Time × StoreOp V)) :
    ((init n hn).run ops).expirationHeap.Subperm (tickets ops) := by
  induction ops using List.reverseRecOn with
  | nil => exact List.Subperm.refl _
  | append_singleton ops op ih =>
    obtain ⟨now, op⟩ := op
    have htickets : tickets (ops ++ [(now, op)]) = tickets ops ++ (ticket now op).toList := by
      rw [tickets, List.filterMap_append, tickets]
      cases hticket : ticket now op <;> simp [hticket]
    rw [run_concat, htickets, expirationHeap_perform]
    split
    · exact ((List.dropWhile_sublist _).subperm.trans ih).trans
        (List.sublist_append_left _ _).subperm
    · cases ticket now op with
      | none => simpa using ih
      | some q =>
        refine (List.perm_orderedInsert ticketLe q _).subperm.trans ?_
        refine ((List.subperm_cons q).mpr ih).trans ?_
        exact (List.perm_append_singleton q _).symm.subperm

/-- A ticket of the heap was pushed by a put, and no later pass found it due. -/
theorem exists_of_mem_expirationHeap {n : ℕ} (hn : 0 < n) {ops : List (Time × StoreOp V)}
    {p : Time × String} (h : p ∈ ((init n hn).run ops).expirationHeap) :
    ∃ before t₀ op after, ops = before ++ (t₀, op) :: after ∧ ticket t₀ op = some p ∧
      ∀ τ, (τ, .cleanup) ∈ after → τ < p.1 := by
  induction ops using List.reverseRecOn with
  | nil => cases h
  | append_singleton ops op ih =>
    obtain ⟨now, op⟩ := op
    rw [run_concat] at h
    by_cases hop : op = .cleanup
    · subst hop
      change p ∈ (CacheStore.cleanup _ now).expirationHeap at h
      rw [((Ticketed.init hn).run ops).expirationHeap_cleanup] at h
      obtain ⟨hheap, hlater⟩ := List.mem_filter.mp h
      obtain ⟨before, t₀, put, after, rfl, hticket, hafter⟩ := ih hheap
      refine ⟨before, t₀, put, after ++ [(now, .cleanup)], by simp, hticket, fun τ hτ => ?_⟩
      rcases List.mem_append.mp hτ with hτ | hτ
      · exact hafter τ hτ
      · obtain ⟨rfl, -⟩ := Prod.mk.inj (List.mem_singleton.mp hτ)
        exact of_decide_eq_true hlater
    · rcases (mem_expirationHeap_perform hop).mp h with hnew | hold
      · exact ⟨ops, now, op, [], rfl, hnew, fun τ hτ => by cases hτ⟩
      · obtain ⟨before, t₀, put, after, rfl, hticket, hafter⟩ := ih hold
        refine ⟨before, t₀, put, after ++ [(now, op)], by simp, hticket, fun τ hτ => ?_⟩
        rcases List.mem_append.mp hτ with hτ | hτ
        · exact hafter τ hτ
        · exact absurd (Prod.mk.inj (List.mem_singleton.mp hτ)).2.symm hop

theorem ticket_eq_some_iff {now : Time} {op : StoreOp V} {p : Time × String} :
    ticket now op = some p ↔ ∃ key value ttlSeconds, op = .put key value (some ttlSeconds) ∧
      0 < ttlSeconds ∧ p = (now + ttlSeconds, key) := by
  cases op with
  | put key value ttlSeconds =>
    cases ttlSeconds with
    | none => simp [ticket]
    | some ttlSeconds =>
      rw [ticket]
      split_ifs with hpos
      · simp [hpos, eq_comm]
      · simp [hpos]
  | get key => simp [ticket]
  | delete key => simp [ticket]
  | clear => simp [ticket]
  | items => simp [ticket]
  | snapshot => simp [ticket]
  | cleanup => simp [ticket]

/-- Where a pass was made in every interval, a ticket of the heap has been due for less than an
interval. -/
theorem lt_of_mem_expirationHeap {n : ℕ} (hn : 0 < n) {interval start t : Time}
    {ops : List (Time × StoreOp V)} (hclock : (start :: ops.map Prod.fst).Pairwise (· ≤ ·))
    (hcleaned : CleanedEvery interval start t ops) {p : Time × String}
    (h : p ∈ ((init n hn).run ops).expirationHeap) : t < p.1 + interval := by
  obtain ⟨before, t₀, op, after, rfl, hticket, hafter⟩ := exists_of_mem_expirationHeap hn h
  obtain ⟨key, value, ttlSeconds, rfl, hpos, rfl⟩ := ticket_eq_some_iff.mp hticket
  obtain ⟨hstart, hclock⟩ := List.pairwise_cons.mp hclock
  rw [List.map_append, List.map_cons, List.pairwise_append] at hclock
  have ht₀ : t₀ < t₀ + ttlSeconds := lt_add_of_pos_right t₀ hpos
  by_contra hdue
  have hle : start ≤ t₀ := hstart t₀ (by simp)
  obtain ⟨τ, hτ, hge, -⟩ := hcleaned (t₀ + ttlSeconds) (hle.trans ht₀.le) (not_lt.mp hdue)
  -- the pass came after the put, and did not find the ticket due
  rcases List.mem_append.mp hτ with hτ | hτ
  · have hbefore := hclock.2.2 τ (List.mem_map_of_mem hτ) t₀ List.mem_cons_self
    exact absurd (ht₀.trans_le hge) hbefore.not_gt
  · rcases List.mem_cons.mp hτ with heq | hτ
    · cases (Prod.mk.inj heq).2
    · exact absurd hge (hafter τ hτ).not_ge

/-- **The heap is bounded by the recent puts.** In a run whose clock does not go back, with a
cleanup pass in every interval and no lifetime above `maxTtl`, the heap has at most one ticket for
each put with a positive lifetime that was made less than `maxTtl + interval` before `t`. -/
theorem heap_bounded_by_recent_puts {n : ℕ} (hn : 0 < n) {interval maxTtl start t : Time}
    {ops : List (Time × StoreOp V)} (hclock : (start :: ops.map Prod.fst).Pairwise (· ≤ ·))
    (hcleaned : CleanedEvery interval start t ops)
    (httl : ∀ now key value ttlSeconds,
      (now, StoreOp.put key value (some ttlSeconds)) ∈ ops → ttlSeconds ≤ maxTtl) :
    ((init n hn).run ops).expirationHeap.length ≤
      ops.countP fun op => (ticket op.1 op.2).isSome && decide (t < op.1 + (maxTtl + interval)) := by
  set heap := ((init n hn).run ops).expirationHeap with hheap
  have hlate : heap.filter (fun p => decide (t < p.1 + interval)) = heap :=
    List.filter_eq_self.mpr fun p hp =>
      decide_eq_true (lt_of_mem_expirationHeap hn hclock hcleaned (hheap ▸ hp))
  have hsub := (subperm_tickets hn ops).countP_le fun p => decide (t < p.1 + interval)
  calc heap.length = heap.countP fun p => decide (t < p.1 + interval) := by
        rw [List.countP_eq_length_filter, hlate]
    _ ≤ (tickets ops).countP fun p => decide (t < p.1 + interval) := hsub
    _ = ops.countP fun op =>
          ((ticket op.1 op.2).map fun p => decide (t < p.1 + interval)).getD false := by
        rw [tickets, List.countP_filterMap]
    _ ≤ _ := by
        refine List.countP_mono_left fun op hop hcounted => ?_
        obtain ⟨now, op⟩ := op
        cases hticket : ticket now op with
        | none => rw [hticket] at hcounted; cases hcounted
        | some p =>
          rw [hticket] at hcounted
          obtain ⟨key, value, ttlSeconds, rfl, hpos, rfl⟩ := ticket_eq_some_iff.mp hticket
          have hcount : t < now + ttlSeconds + interval := of_decide_eq_true hcounted
          have hle := httl now key value ttlSeconds hop
          simp only [Option.isSome_some, Bool.true_and, decide_eq_true_iff]
          calc t < now + ttlSeconds + interval := hcount
            _ = now + (ttlSeconds + interval) := add_assoc now ttlSeconds interval
            _ ≤ now + (maxTtl + interval) := add_le_add le_rfl (add_le_add hle le_rfl)

/-- `heap_bounded_by_recent_puts` where the ticket of a deleted entry is still in the heap. -/
theorem heap_bounded_by_recent_puts_deleted :
    let ops : List (Time × StoreOp ℕ) := [(0, .cleanup), (1, .put "a" (some 1) (some 2)),
      (5, .cleanup), (6, .put "b" (some 2) (some 3)), (6, .delete "b")]
    ((init 1 Nat.one_pos).run ops).expirationHeap.length ≤ 1 := by
  intro ops
  have hcleaned : CleanedEvery 5 0 10 ops := by
    intro u hu hu'
    have hle : u ≤ 5 := (le_sub_iff_add_le.mpr hu').trans (by decide +kernel)
    exact ⟨5, by simp [ops], hle, le_add_of_nonneg_left hu⟩
  have httl : ∀ now key value ttlSeconds,
      (now, StoreOp.put key value (some ttlSeconds)) ∈ ops → ttlSeconds ≤ 3 := by
    intro now key value ttlSeconds hput
    simp only [ops, List.mem_cons, Prod.mk.injEq, reduceCtorEq, and_false, StoreOp.put.injEq,
      Option.some.injEq, List.not_mem_nil, or_false, false_or] at hput
    rcases hput with ⟨-, -, -, rfl⟩ | ⟨-, -, -, rfl⟩ <;> decide +kernel
  exact (heap_bounded_by_recent_puts Nat.one_pos (by decide +kernel) hcleaned httl).trans
    (by decide +kernel)

/-- One key is put again and again: every put leaves its ticket. -/
theorem expirationHeap_put_again (count : ℕ) :
    ((init 1 Nat.one_pos : CacheStore ℕ).run
      ((0, .cleanup) :: List.replicate count (1, .put "k" (some 1) (some 10)))).expirationHeap =
        List.replicate count (11, "k") := by
  induction count with
  | zero => rfl
  | succ count ih =>
    rw [List.replicate_succ', ← List.cons_append, run_concat, expirationHeap_perform, ih]
    have hticket : ticket 1 (.put "k" (some 1) (some 10) : StoreOp ℕ) = some (11, "k") := by
      decide +kernel
    dsimp only
    rw [hticket, Option.elim_some, List.replicate_succ]
    cases count with
    | zero => rfl
    | succ count =>
      rw [List.replicate_succ, List.orderedInsert_cons_of_le _ _ (by decide +kernel)]

/-- No bound by the capacity holds: a store of one entry whose key is put again and again, with
cleanup passes at the times 0 and 5 that find nothing due. -/
theorem heap_exceeds_every_bound :
    ¬∃ bound : ℕ → ℕ, ∀ (n : ℕ) (hn : 0 < n) (ops : List (Time × StoreOp ℕ)) (start t : Time),
      (start :: (ops.map Prod.fst ++ [t])).Pairwise (· ≤ ·) → CleanedEvery 5 start t ops →
      ((init n hn).run ops).expirationHeap.length ≤ bound n := by
  rintro ⟨bound, hbound⟩
  set count := bound 1 + 1 with hcount
  have hclock : (0 :: (((0, .cleanup) :: List.replicate count (1, .put "k" (some 1) (some 10)) ++
      [(5, .cleanup)] : List (Time × StoreOp ℕ)).map Prod.fst ++ [7])).Pairwise (· ≤ ·) := by
    simp only [List.map_append, List.map_cons, List.map_replicate, List.map_nil]
    simp [List.pairwise_append, List.pairwise_replicate]
    decide +kernel
  have hcleaned : CleanedEvery 5 0 7 ((0, .cleanup) ::
      List.replicate count (1, .put "k" (some 1) (some 10)) ++
      [(5, .cleanup)] : List (Time × StoreOp ℕ)) := by
    intro u hu hu'
    have hle : u ≤ 5 := (le_sub_iff_add_le.mpr hu').trans (by decide +kernel)
    exact ⟨5, by simp, hle, le_add_of_nonneg_left hu⟩
  have hle := hbound 1 Nat.one_pos _ 0 7 hclock hcleaned
  rw [run_concat] at hle
  change (CacheStore.cleanup _ 5).expirationHeap.length ≤ _ at hle
  rw [((Ticketed.init Nat.one_pos).run _).expirationHeap_cleanup, expirationHeap_put_again,
    List.filter_eq_self.mpr, List.length_replicate] at hle
  · omega
  · intro p hp
    rw [List.eq_of_mem_replicate hp]
    decide +kernel

end CacheStore

end DistributedCache
