import DistributedCache.Cache.Operations

/-!
# What a store holds after a run

The run alone says what a key should have: the entry of the last put, unless the key was deleted
or the store was cleared later. A store holds nothing else for the key, and it still holds that
entry unless its time is up or as many other keys as the capacity were put or read since the key
was last put or read.

## Main definitions

* `CacheStore.lastWrite` : what a run last wrote for a key.
* `CacheStore.touchedSince` : the other keys put or found since a key was last put or found.
* `CacheStore.Tracks` : a store holds what its run says about a key.

## Main results

* `CacheStore.Tracks.perform` : every operation keeps this.
* `CacheStore.sound_and_retains` : soundness, retention and the bound on the entries.
-/

namespace DistributedCache

open Library

variable {V : Type*}

/-- The operation puts or deletes the key, or clears the store. -/
def StoreOp.Overwrites (key : String) : StoreOp V → Prop
  | .put k _ _ => k = key
  | .delete k => k = key
  | .clear => True
  | .get _ | .items | .snapshot | .cleanup => False

namespace CacheStore

/-- What a run last wrote for a key: an entry, or `none` when there is no put of the key or the
last one was undone by a delete, a clear or a lifetime that is not positive. -/
def lastWrite (key : String) (ops : List (Time × StoreOp V)) : Option (CacheEntry V) :=
  ops.foldl (fun last op => (written op.1 key op.2).getD last) none

/-- The other keys, once a key was touched: `key` itself starts them anew. -/
def touch (key : String) (others : Finset String) : Option String → Finset String
  | none => others
  | some k => if k = key then ∅ else {k} ∪ others

/-- The other keys that were put or found since `key` was last put or found. -/
def touchedSince (key : String) (s : CacheStore V) (ops : List (Time × StoreOp V)) :
    Finset String :=
  (ops.foldl (fun (p : CacheStore V × Finset String) op =>
    (p.1.perform op.1 op.2, touch key p.2 (p.1.touched op.1 op.2))) (s, ∅)).2

variable {key : String} {ops : List (Time × StoreOp V)} {now : Time} {op : StoreOp V}

theorem written_eq_none_iff : written now key op = none ↔ ¬op.Overwrites key := by
  cases op <;> simp [written, StoreOp.Overwrites]

theorem lastWrite_concat : lastWrite key (ops ++ [(now, op)]) =
    (written now key op).getD (lastWrite key ops) := by
  rw [lastWrite, List.foldl_append, List.foldl_cons, List.foldl_nil, lastWrite]

/-- Operations that leave the key alone do not change what was last written. -/
theorem lastWrite_append {after : List (Time × StoreOp V)}
    (h : ∀ op ∈ after, ¬op.2.Overwrites key) :
    lastWrite key (ops ++ after) = lastWrite key ops := by
  induction after using List.reverseRecOn with
  | nil => rw [List.append_nil]
  | append_singleton after op ih =>
    have hop := h op (List.mem_append_right _ (List.mem_singleton.mpr rfl))
    rw [← List.append_assoc, lastWrite_concat, written_eq_none_iff.mpr hop, Option.getD_none,
      ih fun op' hop' => h op' (List.mem_append_left _ hop')]

/-- The last write is that of a put after which the key was left alone. -/
theorem exists_of_lastWrite {entry : CacheEntry V} (h : lastWrite key ops = some entry) :
    ∃ before t value ttlSeconds after, ops = before ++ (t, .put key value ttlSeconds) :: after ∧
      (∀ op ∈ after, ¬op.2.Overwrites key) ∧ putEntry t value ttlSeconds = some entry := by
  induction ops using List.reverseRecOn with
  | nil => cases h
  | append_singleton ops op ih =>
    obtain ⟨now, op⟩ := op
    rw [lastWrite_concat] at h
    cases hwritten : written now key op with
    | none =>
      rw [hwritten, Option.getD_none] at h
      obtain ⟨before, t, value, ttlSeconds, after, rfl, hafter, hentry⟩ := ih h
      refine ⟨before, t, value, ttlSeconds, after ++ [(now, op)], by simp, ?_, hentry⟩
      intro op' hop'
      rcases List.mem_append.mp hop' with hop' | hop'
      · exact hafter op' hop'
      · rw [List.mem_singleton.mp hop']
        exact written_eq_none_iff.mp hwritten
    | some last =>
      rw [hwritten, Option.getD_some] at h
      subst h
      cases op with
      | put k value ttlSeconds =>
        rw [written] at hwritten
        split_ifs at hwritten with hk
        subst hk
        exact ⟨ops, now, value, ttlSeconds, [], rfl, by simp, Option.some.inj hwritten⟩
      | delete k =>
        rw [written] at hwritten
        split_ifs at hwritten
        cases hwritten
      | clear => cases hwritten
      | get k => cases hwritten
      | items => cases hwritten
      | snapshot => cases hwritten
      | cleanup => cases hwritten

theorem touchedSince_concat (s : CacheStore V) : touchedSince key s (ops ++ [(now, op)]) =
    touch key (touchedSince key s ops) ((s.run ops).touched now op) := by
  have hfst : ∀ (ops : List (Time × StoreOp V)) (p : CacheStore V × Finset String),
      (ops.foldl (fun (p : CacheStore V × Finset String) op =>
        (p.1.perform op.1 op.2, touch key p.2 (p.1.touched op.1 op.2))) p).1 = p.1.run ops := by
    intro ops
    induction ops with
    | nil => exact fun _ => rfl
    | cons op ops ih => exact fun p => ih _
  rw [touchedSince, List.foldl_append, List.foldl_cons, List.foldl_nil, hfst, touchedSince]

theorem touch_of_ne {k : String} (h : k ≠ key) (others : Finset String) :
    touch key others (some k) = {k} ∪ others := if_neg h

/-- As long as the key itself is not touched, the others stay. -/
theorem subset_touch {k : Option String} (h : k ≠ some key) (others : Finset String) :
    others ⊆ touch key others k := by
  cases k with
  | none => exact subset_rfl
  | some k =>
    rw [touch_of_ne fun heq => h (congrArg some heq)]
    exact Finset.subset_union_right

/-! ### The store keeps to its run -/

/-- The store holds for the key what its run last wrote, unless the time of that entry is up or
as many other keys as the capacity were touched since; the keys that are more recent were all
touched since. -/
structure Tracks (key : String) (last : Option (CacheEntry V)) (others : Finset String)
    (now : Time) (s : CacheStore V) : Prop where
  sound : ∀ entry, s.entries.get? key = some entry → last = some entry
  kept : ∀ entry, last = some entry → s.entries.get? key = none →
    entry.isExpired now = true ∨ s.maxItems ≤ others.card
  older : ∀ k, s.entries.Older key k → k ∈ others

variable {last : Option (CacheEntry V)} {others : Finset String} {now' : Time} {s s' : CacheStore V}

theorem isExpired_mono {entry : CacheEntry V} (h : entry.isExpired now = true) (hle : now ≤ now') :
    entry.isExpired now' = true := by
  rw [CacheEntry.isExpired] at h ⊢
  cases hexpires : entry.expiresAt with
  | none => rw [hexpires] at h; cases h
  | some expiresAt =>
    rw [hexpires] at h
    exact decide_eq_true ((of_decide_eq_true h).trans hle)

theorem Tracks.init {n : ℕ} (hn : 0 < n) : Tracks key none ∅ now (init n hn : CacheStore V) where
  sound entry h := by cases h
  kept entry h := by cases h
  older k h := by cases h.mem_left

theorem card_touch_le {k : Option String} (h : k ≠ some key) {n : ℕ} (hn : n ≤ others.card) :
    n ≤ (touch key others k).card :=
  hn.trans (Finset.card_le_card (subset_touch h others))

/-- Dropping expired entries and those that are deleted. -/
private theorem Tracks.dropped (h : Tracks key last others now s) (hle : now ≤ now')
    {p : String × CacheEntry V → Bool} (hentries : s'.entries = s.entries.filter p)
    (hmax : s'.maxItems = s.maxItems)
    (hdropped : ∀ q ∈ s.entries.toList, p q = false →
      q.2.isExpired now' = true ∨ written now' q.1 op = some none)
    (hkept : ∀ q ∈ s.entries.toList, p q = true → written now' q.1 op = none)
    (hwritten : ∀ key entry, written now' key op ≠ some (some entry))
    (htouched : ∀ key, s.touched now' op = some key → written now' key op = some none) :
    Tracks key ((written now' key op).getD last) (touch key others (s.touched now' op)) now' s' := by
  have hstays : ∀ entry, s'.entries.get? key = some entry →
      s.entries.get? key = some entry ∧ written now' key op = none := by
    intro entry hentry
    rw [hentries, OrderedDict.get?_filter, Option.filter_eq_some_iff] at hentry
    exact ⟨hentry.1, hkept _ (OrderedDict.get?_eq_some_iff.mp hentry.1) hentry.2⟩
  have hother : written now' key op = none → s.touched now' op ≠ some key := by
    intro hnone hkey
    cases hnone.symm.trans (htouched key hkey)
  refine ⟨fun entry hentry => ?_, fun entry hlast hgone => ?_, fun k hk => ?_⟩
  · obtain ⟨hentry, hnone⟩ := hstays entry hentry
    rw [hnone]
    exact h.sound entry hentry
  · cases hop : written now' key op with
    | none =>
      rw [hop, Option.getD_none] at hlast
      cases hentry : s.entries.get? key with
      | none =>
        rw [hmax]
        exact (h.kept entry hlast hentry).imp (isExpired_mono · hle) (card_touch_le (hother hop))
      | some entry' =>
        have hsame := Option.some.inj ((h.sound entry' hentry).symm.trans hlast)
        have hp : p (key, entry') = false := by
          rw [hentries, OrderedDict.get?_filter, hentry] at hgone
          simpa [Option.filter] using hgone
        rcases hdropped _ (OrderedDict.get?_eq_some_iff.mp hentry) hp with hexpired | hnone
        · exact Or.inl (hsame ▸ hexpired)
        · cases hop.symm.trans hnone
    | some write =>
      rw [hop, Option.getD_some] at hlast
      exact absurd (hop.trans (congrArg some hlast)) (hwritten key entry)
  · obtain ⟨entry, hentry⟩ := OrderedDict.mem_iff_exists_get?.mp hk.mem_left
    have hkeys : s'.entries.keys.Sublist s.entries.keys :=
      hentries ▸ OrderedDict.keys_filter_sublist p s.entries
    exact subset_touch (hother (hstays entry hentry).2) _ (h.older k (hk.mono hkeys))

/-- Moving an entry that a read found to the recent end. -/
private theorem Tracks.moved (h : Tracks key last others now s) (hle : now ≤ now') {k : String}
    {entry : CacheEntry V} (hentry : s.entries.get? k = some entry)
    (hentries : s'.entries = s.entries.moveToEnd k) (hmax : s'.maxItems = s.maxItems) :
    Tracks key last (touch key others (some k)) now' s' := by
  have hget : ∀ a, s'.entries.get? a = s.entries.get? a := fun a => by
    rw [hentries, OrderedDict.get?_moveToEnd]
  refine ⟨fun entry' hentry' => h.sound entry' (by rwa [hget] at hentry'),
    fun entry' hlast hgone => ?_, fun a ha => ?_⟩
  · rw [hget] at hgone
    have hne : k ≠ key := by
      rintro rfl
      cases hentry.symm.trans hgone
    rw [hmax]
    exact (h.kept entry' hlast hgone).imp (isExpired_mono · hle)
      (card_touch_le fun heq => hne (Option.some.inj heq))
  · rw [hentries, OrderedDict.moveToEnd, hentry] at ha
    obtain ⟨hne, ha⟩ := ha.of_pop_set
    rw [touch_of_ne (Ne.symm hne), Finset.mem_union, Finset.mem_singleton]
    exact ha.imp_right (h.older a)

/-- Inserting an entry of the key itself. -/
private theorem Tracks.inserted_self {entry : CacheEntry V}
    (hentries : s'.entries = (s.insert key entry).entries) :
    Tracks key (some entry) ∅ now' s' := by
  obtain ⟨n, hn⟩ : ∃ n, s.maxItems = n + 1 := ⟨_, (Nat.sub_add_cancel s.maxItems_pos).symm⟩
  have hlist : s'.entries.toList = (s.entries.pop key).toList.rtake n ++ [(key, entry)] := by
    rw [hentries, toList_entries_insert, hn, List.rtake_concat_succ]
  have hentry : s'.entries.get? key = some entry := by rw [hentries, get?_entries_insert_self]
  refine ⟨fun e he => hentry.symm.trans he, fun e _ hgone => ?_, fun k hk => ?_⟩
  · cases hentry.symm.trans hgone
  · have hkeys : s'.entries.keys.Sublist ((s.entries.pop key).set key entry).keys := by
      rw [OrderedDict.keys, OrderedDict.keys, hlist, OrderedDict.toList_pop_set]
      exact ((List.drop_sublist _ _).append (List.Sublist.refl _)).map Prod.fst
    exact absurd rfl (hk.mono hkeys).of_pop_set.1

/-- Inserting an entry of another key at the recent end, and evicting at the other end. -/
private theorem Tracks.inserted_ne (h : Tracks key last others now s) (hle : now ≤ now')
    {k : String} (hne : key ≠ k) {entry : CacheEntry V}
    (hentries : s'.entries = (s.insert k entry).entries) (hmax : s'.maxItems = s.maxItems) :
    Tracks key last ({k} ∪ others) now' s' := by
  set d := (s.entries.pop k).set k entry with hd
  have hlist : s'.entries.toList = d.toList.rtake s.maxItems := by
    rw [hentries, toList_entries_insert, hd, OrderedDict.toList_pop_set]
  have hget : d.get? key = s.entries.get? key := by
    rw [hd, OrderedDict.get?_set_of_ne _ _ hne, OrderedDict.get?_pop_of_ne _ hne]
  have holder : ∀ a, d.Older key a → a ∈ {k} ∪ others := by
    intro a ha
    rw [Finset.mem_union, Finset.mem_singleton]
    exact ha.of_pop_set.2.imp_right (h.older a)
  refine ⟨fun e he => ?_, fun e hlast hgone => ?_, fun a ha => holder a (ha.mono ?_)⟩
  · rw [OrderedDict.get?_eq_some_iff, hlist] at he
    refine h.sound e ?_
    rw [← hget, OrderedDict.get?_eq_some_iff]
    exact List.mem_of_mem_drop he
  · rw [hmax]
    cases hentry : s.entries.get? key with
    | none =>
      refine (h.kept e hlast hentry).imp (isExpired_mono · hle) fun hcard => ?_
      exact hcard.trans (Finset.card_le_card Finset.subset_union_right)
    | some e' =>
      -- the key was in the store and fell out at the front
      have hmem : key ∈ d := OrderedDict.mem_iff_exists_get?.mpr ⟨e', hget.trans hentry⟩
      exact Or.inr (OrderedDict.le_card_of_older hlist hmem (OrderedDict.get?_eq_none_iff.mp hgone)
        holder)
  · rw [OrderedDict.keys, OrderedDict.keys, hlist]
    exact (List.drop_sublist _ _).map Prod.fst

/-- Every operation keeps the store to its run. -/
theorem Tracks.perform (h : Tracks key last others now s) (hle : now ≤ now') (op : StoreOp V) :
    Tracks key ((written now' key op).getD last) (touch key others (s.touched now' op)) now'
      (s.perform now' op) := by
  have hmax := maxItems_perform s now' op
  cases effect_perform s now' op with
  | dropped p hentries hdropped hkept hwritten htouched =>
    exact h.dropped hle hentries hmax hdropped hkept hwritten htouched
  | moved k entry hop hentry hlive hentries =>
    subst hop
    have htouched : s.touched now' (.get k) = some k := by simp [touched, hentry, hlive]
    rw [htouched]
    exact h.moved hle hentry hentries hmax
  | inserted k value ttlSeconds entry hop hentry hentries =>
    subst hop
    change Tracks key ((if k = key then _ else none).getD last) (touch key others (some k)) _ _
    by_cases hk : k = key
    · subst hk
      rw [if_pos rfl, hentry, touch, if_pos rfl]
      exact .inserted_self hentries
    · rw [if_neg hk, touch_of_ne hk]
      exact h.inserted_ne hle (Ne.symm hk) hentries hmax

theorem Tracks.later (h : Tracks key last others now s) (hle : now ≤ now') :
    Tracks key last others now' s where
  sound := h.sound
  kept entry hlast hgone := (h.kept entry hlast hgone).imp_left (isExpired_mono · hle)
  older := h.older

/-- A store keeps to its run, when the clock never goes back. -/
theorem tracks_run {n : ℕ} (hn : 0 < n) (key : String) {ops : List (Time × StoreOp V)} {t : Time}
    (hclock : (ops.map Prod.fst ++ [t]).Pairwise (· ≤ ·)) :
    Tracks key (lastWrite key ops) (touchedSince key (init n hn) ops) t ((init n hn).run ops) := by
  induction ops using List.reverseRecOn generalizing t with
  | nil => exact .init hn
  | append_singleton ops op ih =>
    obtain ⟨now, op⟩ := op
    rw [List.map_append, List.map_singleton, List.pairwise_append] at hclock
    obtain ⟨hbefore, -, hle⟩ := hclock
    have hnow : now ≤ t :=
      hle now (List.mem_append_right _ List.mem_cons_self) t List.mem_cons_self
    rw [run_concat, lastWrite_concat, touchedSince_concat]
    exact ((ih hbefore).perform le_rfl op).later hnow

/-- No operation takes a store over its capacity. -/
theorem size_perform_le (h : s.size ≤ s.maxItems) (now : Time) (op : StoreOp V) :
    (s.perform now op).size ≤ s.maxItems := by
  rw [size, OrderedDict.size] at h ⊢
  cases effect_perform s now op with
  | dropped p hentries hdropped hkept hwritten htouched =>
    rw [hentries]
    exact (List.length_filter_le p _).trans h
  | moved k entry hop hentry hlive hentries =>
    rw [hentries, OrderedDict.toList_moveToEnd hentry, List.length_append, List.length_singleton]
    exact (OrderedDict.size_pop_add_one (OrderedDict.mem_iff_exists_get?.mpr ⟨_, hentry⟩)).le.trans h
  | inserted k value ttlSeconds entry hop hentry hentries =>
    rw [hentries, toList_entries_insert, List.rtake, List.length_drop]
    omega

theorem size_run_le {n : ℕ} (hn : 0 < n) (ops : List (Time × StoreOp V)) :
    ((init n hn).run ops).size ≤ n := by
  induction ops using List.reverseRecOn with
  | nil => exact Nat.zero_le n
  | append_singleton ops op ih =>
    have hmax : ((init n hn : CacheStore V).run ops).maxItems = n := maxItems_run _ ops
    rw [run_concat]
    exact (size_perform_le (ih.trans hmax.ge) op.1 op.2).trans hmax.le

/-- The last write of a run is that of a put after which the key was left alone. -/
theorem lastWrite_of_put {before after : List (Time × StoreOp V)} {t₀ : Time} {value : Option V}
    {ttlSeconds : Option Time} (hafter : ∀ op ∈ after, ¬op.2.Overwrites key) :
    lastWrite key (before ++ (t₀, .put key value ttlSeconds) :: after) =
      putEntry t₀ value ttlSeconds := by
  rw [List.append_cons, lastWrite_append hafter, lastWrite_concat, written, if_pos rfl,
    Option.getD_some]

/-- A put leaves an entry that is unexpired at `t` exactly when its lifetime, if it has one, is
positive and not over. -/
theorem putEntry_live_iff {t₀ t : Time} {value : Option V} {ttlSeconds : Option Time} {v : V} :
    (∃ entry, putEntry t₀ value ttlSeconds = some entry ∧ entry.isExpired t = false ∧
      entry.value = some v) ↔
      value = some v ∧ ∀ ttl ∈ ttlSeconds, 0 < ttl ∧ t < t₀ + ttl := by
  cases ttlSeconds with
  | none => simp [putEntry, CacheEntry.isExpired]
  | some ttl =>
    rw [putEntry]
    split_ifs with httl
    · simp [not_lt.mpr httl]
    · have hpos : 0 < ttl := not_le.mp httl
      simp [CacheEntry.isExpired, hpos, and_comm]

/-- **Soundness and retention.** At the end of every run on a store of capacity `n`, whose clock
never goes back and shows `t` then: the store holds at most `n` entries; a value that a read of
the key returns is that of the last put of the key, which no delete and no clear followed and
whose lifetime is not over; and a read does return the value of such a put when fewer than `n`
other keys were put or found since the key was last put or found. -/
theorem sound_and_retains {n : ℕ} (hn : 0 < n) {ops : List (Time × StoreOp V)} {t : Time}
    (hclock : (ops.map Prod.fst ++ [t]).Pairwise (· ≤ ·)) (key : String) (v : V) :
    ((init n hn).run ops).size ≤ n ∧
    ((((init n hn).run ops).get t key).1 = some v →
      ∃ before t₀ ttlSeconds after,
        ops = before ++ (t₀, .put key (some v) ttlSeconds) :: after ∧
        (∀ op ∈ after, ¬op.2.Overwrites key) ∧ ∀ ttl ∈ ttlSeconds, 0 < ttl ∧ t < t₀ + ttl) ∧
    ∀ before t₀ ttlSeconds after,
      ops = before ++ (t₀, .put key (some v) ttlSeconds) :: after →
      (∀ op ∈ after, ¬op.2.Overwrites key) →
      (∀ ttl ∈ ttlSeconds, 0 < ttl ∧ t < t₀ + ttl) →
      (touchedSince key (init n hn) ops).card < n →
      (((init n hn).run ops).get t key).1 = some v := by
  have htracks := tracks_run hn key hclock
  refine ⟨size_run_le hn ops, fun hfound => ?_, ?_⟩
  · obtain ⟨entry, hentry, hlive, hvalue⟩ := fst_get_eq_some_iff.mp hfound
    obtain ⟨before, t₀, value, ttlSeconds, after, hops, hafter, hput⟩ :=
      exists_of_lastWrite (htracks.sound entry hentry)
    obtain ⟨rfl, httl⟩ := putEntry_live_iff.mp ⟨entry, hput, hlive, hvalue⟩
    exact ⟨before, t₀, ttlSeconds, after, hops, hafter, httl⟩
  · rintro before t₀ ttlSeconds after hops hafter httl hcard
    obtain ⟨entry, hput, hlive, hvalue⟩ := putEntry_live_iff.mpr ⟨rfl, httl⟩
    have hlast : lastWrite key ops = some entry := by
      rw [hops, lastWrite_of_put hafter, hput]
    rw [fst_get_eq_some_iff]
    cases hentry : ((init n hn).run ops).entries.get? key with
    | some entry' =>
      have hsame := Option.some.inj ((htracks.sound entry' hentry).symm.trans hlast)
      exact ⟨entry', rfl, hsame ▸ hlive, hsame ▸ hvalue⟩
    | none =>
      have hmax : ((init n hn : CacheStore V).run ops).maxItems = n := maxItems_run _ ops
      rcases htracks.kept entry hlast hentry with hexpired | hfull
      · cases hlive.symm.trans hexpired
      · exact absurd hfull (by omega)

/-- `sound_and_retains` where a read kept the key when the store evicted. -/
theorem sound_and_retains_read_again :
    let ops : List (Time × StoreOp ℕ) := [(0, .put "a" (some 1) (some 9)),
      (1, .put "b" (some 2) none), (2, .get "a"), (3, .put "c" (some 3) none)]
    (((init 2 Nat.two_pos).run ops).get 4 "a").1 = some 1 := by
  intro ops
  refine (sound_and_retains Nat.two_pos (by decide) "a" 1).2.2 [] 0 (some 9) ops.tail rfl
    ?_ ?_ (by decide +kernel)
  · simp [ops, StoreOp.Overwrites]
  · rintro ttl ⟨⟩
    exact ⟨by decide, by decide +kernel⟩

end CacheStore

end DistributedCache
