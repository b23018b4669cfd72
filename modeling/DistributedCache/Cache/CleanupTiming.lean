import DistributedCache.Cache.Retention

/-!
# When a cleanup pass comes

An entry whose time is up stays in its store until an operation meets it or a cleanup pass
collects it, and it counts towards the capacity until then. So the time of a pass matters to a
later read in one case only: a put evicts an entry that has not expired while an expired one is
still there. Runs without such a put are compared with a store that drops every entry as soon as
its time is up, and so with each other.

Source: `distributed_cache/cache/store.py`, `_cleanup_worker` and `_evict_lru_locked`.

## Main definitions

* `CacheStore.reads` : the answers of the gets of a run.
* `CacheStore.Spares`, `CacheStore.SparesAlong` : no put evicts an unexpired entry while there is
  an expired one.
* `CacheStore.promptReads` : the answers of a store that holds no expired entry.

## Main results

* `CacheStore.reads_eq_promptReads` : a store answers as one that holds no expired entry.
* `CacheStore.cleanup_timing_invisible` : the answers do not depend on the cleanup passes.
-/

namespace DistributedCache

open Library

variable {V : Type*}

def StoreOp.isCleanup : StoreOp V → Bool
  | .cleanup => true
  | .put _ _ _ | .get _ | .delete _ | .clear | .items | .snapshot => false

namespace CacheStore

/-- The operations of a run other than its cleanup passes. -/
def calls (ops : List (Time × StoreOp V)) : List (Time × StoreOp V) :=
  ops.filter fun op => !op.2.isCleanup

/-- What an operation answers, where it is a get. -/
def answer (s : CacheStore V) (now : Time) : StoreOp V → Option (Option V)
  | .get key => some (s.get now key).1
  | .put _ _ _ | .delete _ | .clear | .items | .snapshot | .cleanup => none

/-- The answers of the gets of a run, in their order. -/
def reads (s : CacheStore V) : List (Time × StoreOp V) → List (Option V)
  | [] => []
  | (now, op) :: ops => (s.answer now op).toList ++ reads (s.perform now op) ops

/-- The answers of the gets when the store drops what has expired before every operation. -/
def promptReads (s : CacheStore V) : List (Time × StoreOp V) → List (Option V)
  | [] => []
  | (now, op) :: ops =>
    ((s.dropExpired now).answer now op).toList ++
      promptReads ((s.dropExpired now).perform now op) ops

/-- A put that stores an entry has room for it, or the least recently used entry, which it evicts,
has expired, or no entry has. -/
def Spares (s : CacheStore V) (now : Time) : StoreOp V → Prop
  | .put key value ttlSeconds => (putEntry now value ttlSeconds).isSome →
    s.HasRoom key ∨
      (∀ p ∈ (s.entries.pop key).toList.head?, p.2.isExpired now = true) ∨
      ∀ p ∈ (s.entries.pop key).toList, p.2.isExpired now = false
  | .get _ | .delete _ | .clear | .items | .snapshot | .cleanup => True

/-- No put of the run evicts an unexpired entry while there is an expired one. -/
def SparesAlong (s : CacheStore V) : List (Time × StoreOp V) → Prop
  | [] => True
  | (now, op) :: ops => s.Spares now op ∧ SparesAlong (s.perform now op) ops

instance (s : CacheStore V) (now : Time) (op : StoreOp V) : Decidable (s.Spares now op) :=
  match op with
  | .put _ value ttlSeconds =>
    inferInstanceAs (Decidable ((putEntry now value ttlSeconds).isSome → _ ∨ _ ∨ _))
  | .get _ | .delete _ | .clear | .items | .snapshot | .cleanup => .isTrue trivial

instance decidableSparesAlong (s : CacheStore V) :
    (ops : List (Time × StoreOp V)) → Decidable (s.SparesAlong ops)
  | [] => .isTrue trivial
  | (now, op) :: ops =>
    have := decidableSparesAlong (s.perform now op) ops
    inferInstanceAs (Decidable (s.Spares now op ∧ _))

variable {s e : CacheStore V} {now t : Time} {op : StoreOp V}

/-- Apart from cleanup passes, what an operation does to the entries depends on the entries and
the capacity only. -/
theorem entries_perform_congr (hop : op ≠ .cleanup) (hmax : s.maxItems = e.maxItems)
    (h : s.entries = e.entries) : (s.perform now op).entries = (e.perform now op).entries := by
  cases op with
  | put key value ttlSeconds =>
    rw [perform, perform, put_eq, put_eq]
    cases putEntry now value ttlSeconds with
    | none => exact congrArg (OrderedDict.pop · key) h
    | some entry =>
      refine OrderedDict.ext_toList ?_
      rw [toList_entries_insert, toList_entries_insert, h, hmax]
  | get key =>
    rw [perform, perform, get, get, h]
    cases e.entries.get? key with
    | none => exact h
    | some entry =>
      dsimp only
      split_ifs <;> rfl
  | delete key => exact congrArg (OrderedDict.pop · key) h
  | clear => rfl
  | items => exact congrArg (OrderedDict.filter _) h
  | snapshot => exact congrArg (OrderedDict.filter _) h
  | cleanup => exact absurd rfl hop

/-- Stores whose gets read the same answer the same. -/
theorem answer_eq_of_get (h : ∀ key, (s.get now key).1 = (e.get now key).1) :
    s.answer now op = e.answer now op := by
  cases op with
  | get key => exact congrArg some (h key)
  | put key value ttlSeconds => rfl
  | delete key => rfl
  | clear => rfl
  | items => rfl
  | snapshot => rfl
  | cleanup => rfl

theorem answer_congr (h : s.entries = e.entries) : s.answer now op = e.answer now op := by
  refine answer_eq_of_get fun key => Option.ext fun v => ?_
  rw [fst_get_eq_some_iff, fst_get_eq_some_iff, h]

/-! ### Dropping what has expired -/

theorem toList_dropExpired (s : CacheStore V) (now : Time) :
    (s.dropExpired now).entries.toList = s.entries.toList.filter fun p => !p.2.isExpired now := rfl

private theorem filter_filter_self {α : Type*} (p : α → Bool) (l : List α) :
    (l.filter p).filter p = l.filter p := by
  rw [List.filter_filter]
  simp only [Bool.and_self]

/-- A get answers the same when what has expired is dropped before it. -/
theorem answer_dropExpired : (s.dropExpired now).answer now op = s.answer now op := by
  refine answer_eq_of_get fun key => Option.ext fun v => ?_
  rw [fst_get_eq_some_iff, fst_get_eq_some_iff]
  refine exists_congr fun entry => ?_
  rw [dropExpired, OrderedDict.get?_filter, Option.filter_eq_some_iff]
  constructor
  · rintro ⟨⟨hentry, -⟩, hlive⟩
    exact ⟨hentry, hlive⟩
  · rintro ⟨hentry, hlive, hvalue⟩
    exact ⟨⟨hentry, by simp [hlive]⟩, hlive, hvalue⟩

/-- Dropping again later drops what has expired by then. -/
theorem dropExpired_dropExpired (hle : t ≤ now) :
    ((s.dropExpired t).dropExpired now).entries = (s.dropExpired now).entries := by
  refine OrderedDict.ext_toList ?_
  rw [toList_dropExpired, toList_dropExpired, List.filter_filter, toList_dropExpired]
  refine List.filter_congr fun p _ => ?_
  cases hlive : p.2.isExpired now with
  | true => rfl
  | false =>
    have hbefore : p.2.isExpired t = false := by
      rw [Bool.eq_false_iff] at hlive ⊢
      exact fun hexpired => hlive (isExpired_mono hexpired hle)
    rw [hbefore]
    rfl

/-- A cleanup pass drops expired entries only. -/
theorem dropExpired_cleanup :
    ((s.cleanup now).dropExpired now).entries = (s.dropExpired now).entries := by
  refine OrderedDict.ext_toList ?_
  rw [toList_dropExpired, entries_cleanup_eq, OrderedDict.toList_filter, List.filter_filter,
    toList_dropExpired]
  refine List.filter_congr fun p _ => ?_
  cases p.2.isExpired now <;> simp

theorem dropExpired_pop (key : String) :
    ((s.dropExpired now).entries.pop key).toList =
      (s.entries.pop key).toList.filter fun p => !p.2.isExpired now := by
  change (s.entries.toList.filter _).filter _ = (s.entries.toList.filter _).filter _
  rw [List.filter_filter, List.filter_filter]
  exact List.filter_congr fun p _ => Bool.and_comm _ _

/-- Evicting from a full list leaves the same live elements as evicting from the live ones alone,
when the first element is not live, or all are. -/
private theorem filter_rtake_concat {α : Type*} {live : α → Bool} {l : List α} (a : α) {n : ℕ}
    (hn : l.length ≤ n)
    (h : l.length < n ∨ (∀ x ∈ l.head?, live x = false) ∨ ∀ x ∈ l, live x = true) :
    ((l ++ [a]).rtake n).filter live = ((l.filter live ++ [a]).rtake n).filter live := by
  have hroom : ∀ l' : List α, l'.length < n → (l' ++ [a]).rtake n = l' ++ [a] := by
    intro l' hl'
    rw [List.rtake, List.length_append, List.length_singleton, Nat.sub_eq_zero_of_le hl',
      List.drop_zero]
  have hshorter : l.length < n →
      ((l ++ [a]).rtake n).filter live = ((l.filter live ++ [a]).rtake n).filter live := by
    intro hlt
    rw [hroom l hlt, hroom _ ((List.length_filter_le live l).trans_lt hlt), List.filter_append,
      List.filter_append, filter_filter_self]
  rcases h with hlt | hfirst | hall
  · exact hshorter hlt
  · cases l with
    | nil =>
      cases n with
      | zero => simp [List.rtake]
      | succ n => exact hshorter (Nat.succ_pos n)
    | cons x l =>
      have hx : live x = false := hfirst x rfl
      rcases hn.lt_or_eq with hlt | rfl
      · exact hshorter hlt
      · -- the list is full: its first element goes, which is not among the live ones
        have hlive : (l.filter live).length < (x :: l).length :=
          Nat.lt_succ_of_le (List.length_filter_le live l)
        have hdrop : (x :: l ++ [a]).rtake (x :: l).length = l ++ [a] := by
          simp [List.rtake]
        rw [hdrop, List.filter_cons_of_neg (by simp [hx]), hroom _ hlive, List.filter_append,
          List.filter_append, filter_filter_self]
  · rw [List.filter_eq_self.mpr hall]

/-- A put that spares the live entries acts on them as if the others were gone. -/
private theorem dropExpired_put (hsize : s.size ≤ s.maxItems) {key : String} {value : Option V}
    {ttlSeconds : Option Time} (hspares : s.Spares now (.put key value ttlSeconds)) :
    ((s.put now key value ttlSeconds).dropExpired now).entries =
      (((s.dropExpired now).put now key value ttlSeconds).dropExpired now).entries := by
  refine OrderedDict.ext_toList ?_
  rw [toList_dropExpired, toList_dropExpired, put_eq, put_eq]
  rw [Spares] at hspares
  cases hentry : putEntry now value ttlSeconds with
  | none =>
    dsimp only [delete]
    rw [dropExpired_pop, filter_filter_self]
  | some entry =>
    dsimp only
    rw [toList_entries_insert, toList_entries_insert, dropExpired_pop]
    have hlength : (s.entries.pop key).toList.length ≤ s.maxItems :=
      (List.length_filter_le _ _).trans hsize
    refine filter_rtake_concat (key, entry) hlength ?_
    have hspares := hspares (by rw [hentry]; rfl)
    refine hspares.imp_right (Or.imp (fun hfirst p hp => ?_) fun hnone p hp => ?_)
    · rw [hfirst p hp]
      rfl
    · rw [hnone p hp]
      rfl

/-- An operation that spares the live entries acts on them as if the others were gone. -/
theorem dropExpired_perform (hop : op ≠ .cleanup) (hsize : s.size ≤ s.maxItems)
    (hspares : s.Spares now op) : ((s.perform now op).dropExpired now).entries =
      (((s.dropExpired now).perform now op).dropExpired now).entries := by
  cases op with
  | put key value ttlSeconds => exact dropExpired_put hsize hspares
  | get key =>
    have hget : (s.dropExpired now).entries.get? key =
        (s.entries.get? key).filter fun entry => !entry.isExpired now := OrderedDict.get?_filter
    refine OrderedDict.ext_toList ?_
    rw [toList_dropExpired, toList_dropExpired, perform, perform, get, get]
    cases hentry : s.entries.get? key with
    | none =>
      rw [hget, hentry, Option.filter_none]
      dsimp only
      rw [toList_dropExpired, filter_filter_self]
    | some entry =>
      rw [hentry] at hget
      cases hexpired : entry.isExpired now with
      | true =>
        -- the read drops an entry that is not among the live ones
        rw [Option.filter_some_neg (by simp [hexpired])] at hget
        rw [hget]
        dsimp only
        rw [if_pos hexpired, toList_dropExpired, filter_filter_self]
        rw [← dropExpired_pop, OrderedDict.pop_of_not_mem (OrderedDict.get?_eq_none_iff.mp hget),
          toList_dropExpired]
      | false =>
        rw [Option.filter_some_pos (by simp [hexpired])] at hget
        rw [hget]
        dsimp only
        rw [hexpired, if_neg Bool.false_ne_true, if_neg Bool.false_ne_true,
          OrderedDict.toList_moveToEnd hentry, OrderedDict.toList_moveToEnd hget, dropExpired_pop,
          List.filter_append, List.filter_append, filter_filter_self]
  | delete key =>
    refine OrderedDict.ext_toList ?_
    rw [toList_dropExpired, toList_dropExpired]
    dsimp only [perform, delete]
    rw [dropExpired_pop, filter_filter_self]
  | clear => rfl
  | items => exact (dropExpired_dropExpired (s := s.dropExpired now) le_rfl).symm
  | snapshot => exact (dropExpired_dropExpired (s := s.dropExpired now) le_rfl).symm
  | cleanup => exact absurd rfl hop

/-! ### Runs -/

theorem calls_cons_cleanup (ops : List (Time × StoreOp V)) :
    calls ((now, .cleanup) :: ops) = calls ops := rfl

theorem calls_cons (hop : op ≠ .cleanup) (ops : List (Time × StoreOp V)) :
    calls ((now, op) :: ops) = (now, op) :: calls ops := by
  cases op <;> first | rfl | exact absurd rfl hop

/-- A store answers as one that holds no expired entry and sees no cleanup pass. -/
theorem reads_eq_promptReads {ops : List (Time × StoreOp V)}
    (hclock : (t :: ops.map Prod.fst).Pairwise (· ≤ ·)) (hsize : s.size ≤ s.maxItems)
    (hmax : s.maxItems = e.maxItems)
    (hlive : (s.dropExpired t).entries = (e.dropExpired t).entries)
    (hspares : s.SparesAlong ops) : s.reads ops = e.promptReads (calls ops) := by
  induction ops generalizing s e t with
  | nil => rfl
  | cons op ops ih =>
    obtain ⟨now, op⟩ := op
    rw [List.map_cons, List.pairwise_cons] at hclock
    obtain ⟨hle, hclock⟩ := hclock
    have hnow : (s.dropExpired now).entries = (e.dropExpired now).entries := by
      have hle : t ≤ now := hle now List.mem_cons_self
      rw [← dropExpired_dropExpired hle, ← dropExpired_dropExpired (s := e) hle]
      exact congrArg (OrderedDict.filter _) hlive
    obtain ⟨hspare, hspares⟩ := hspares
    have hsize' : (s.perform now op).size ≤ (s.perform now op).maxItems := by
      rw [maxItems_perform]
      exact size_perform_le hsize now op
    have hmax' : (s.perform now op).maxItems = e.maxItems := by rw [maxItems_perform, hmax]
    by_cases hop : op = .cleanup
    · subst hop
      rw [calls_cons_cleanup]
      exact ih hclock hsize' hmax' (dropExpired_cleanup.trans hnow) hspares
    · rw [calls_cons hop, reads, promptReads]
      have hanswer : s.answer now op = (e.dropExpired now).answer now op := by
        rw [← answer_dropExpired]
        exact answer_congr hnow
      have hlive' : ((s.perform now op).dropExpired now).entries =
          (((e.dropExpired now).perform now op).dropExpired now).entries := by
        rw [dropExpired_perform hop hsize hspare]
        exact congrArg (OrderedDict.filter _) (entries_perform_congr hop hmax hnow)
      rw [hanswer, ih (e := (e.dropExpired now).perform now op) hclock hsize'
        (hmax'.trans (maxItems_perform (e.dropExpired now) now op).symm) hlive' hspares]

/-- **Cleanup timing.** Two runs of one store with the same calls at the same readings of a clock
that never goes back, with cleanup passes anywhere between them, answer every read alike, as long
as no put of either evicts an unexpired entry while the store holds an expired one. -/
theorem cleanup_timing_invisible {n : ℕ} (hn : 0 < n) {ops ops' : List (Time × StoreOp V)}
    (hcalls : calls ops = calls ops') (hclock : (ops.map Prod.fst).Pairwise (· ≤ ·))
    (hclock' : (ops'.map Prod.fst).Pairwise (· ≤ ·))
    (hspares : (init n hn : CacheStore V).SparesAlong ops)
    (hspares' : (init n hn : CacheStore V).SparesAlong ops') :
    (init n hn).reads ops = (init n hn).reads ops' := by
  have hrun : ∀ {ops : List (Time × StoreOp V)}, (ops.map Prod.fst).Pairwise (· ≤ ·) →
      (init n hn : CacheStore V).SparesAlong ops →
      (init n hn).reads ops = (init n hn).promptReads (calls ops) := by
    intro ops hclock hspares
    cases ops with
    | nil => rfl
    | cons op ops =>
      refine reads_eq_promptReads (t := op.1) ?_ (Nat.zero_le n) rfl rfl hspares
      refine List.pairwise_cons.mpr ⟨fun now hnow => ?_, hclock⟩
      rcases List.mem_cons.mp hnow with rfl | hnow
      · exact le_rfl
      · exact (List.pairwise_cons.mp hclock).1 now hnow
  rw [hrun hclock hspares, hrun hclock' hspares', hcalls]

/-- `cleanup_timing_invisible` where a pass collects an entry that the other run evicts. -/
theorem cleanup_timing_invisible_expired_first :
    let before : List (Time × StoreOp ℕ) := [(0, .put "b" (some 2) (some 1)),
      (0, .put "a" (some 1) none)]
    let after : List (Time × StoreOp ℕ) := [(2, .put "c" (some 3) none), (2, .get "a")]
    (init 2 Nat.two_pos).reads (before ++ after) =
      (init 2 Nat.two_pos).reads (before ++ (2, .cleanup) :: after) :=
  cleanup_timing_invisible Nat.two_pos rfl (by decide +kernel) (by decide +kernel)
    (by decide +kernel) (by decide +kernel)

/-- Cleanup passes do matter where a put evicts an unexpired entry: without a pass the entry of
`a`, the least recently used one, goes although that of `b` has expired. -/
theorem cleanup_timing_visible :
    ¬∀ {n : ℕ} (hn : 0 < n) {ops ops' : List (Time × StoreOp ℕ)}, calls ops = calls ops' →
      (ops.map Prod.fst).Pairwise (· ≤ ·) → (ops'.map Prod.fst).Pairwise (· ≤ ·) →
      (init n hn).reads ops = (init n hn).reads ops' := by
  intro h
  let before : List (Time × StoreOp ℕ) := [(0, .put "a" (some 1) none),
    (0, .put "b" (some 2) (some 1))]
  let after : List (Time × StoreOp ℕ) := [(2, .put "c" (some 3) none), (2, .get "a")]
  have hreads : (init 2 Nat.two_pos).reads (before ++ after) =
      (init 2 Nat.two_pos).reads (before ++ (2, .cleanup) :: after) :=
    h Nat.two_pos rfl (by decide +kernel) (by decide +kernel)
  revert hreads
  decide +kernel

end CacheStore

end DistributedCache
