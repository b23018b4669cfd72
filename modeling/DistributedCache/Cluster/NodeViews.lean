import DistributedCache.Cache.Operations
import DistributedCache.Cluster.HttpTransport

/-!
# What a node says about a key

A get, a snapshot and a delete each tell whether a node has a key. The first two pass over an
entry whose time is up, while a delete pops whatever is there. So all three agree unless the store
still holds an expired entry of the key, which depends on the run and on its cleanup passes.

Source: `distributed_cache/cluster/runtime.py`.

## Main definitions

* `NodeStep`, `NodeRuntime.run` : calls on a runtime and cleanup passes of its store.
* `NodeRuntime.HoldsValues` : no entry holds `None`.
* `NodeRuntime.ViewsAgree` : get, snapshot and delete agree on a key.

## Main results

* `NodeRuntime.store_run` : the store of a runtime performs the operations of its run.
* `NodeRuntime.views_agree_iff` : when the views agree.
-/

namespace DistributedCache

open Library

variable {V : Type*}

/-- A call with the readings of the clock that it makes, or a pass of the cleanup thread. -/
inductive NodeStep (V : Type*)
  | call (clock : Clock) (c : NodeCall V)
  | cleanup (now : Time)

namespace NodeStep

/-- A put is given a value, not `None`. -/
def PutsValue : NodeStep V → Prop
  | call _ (.put _ value _) => value ≠ none
  | call _ (.get _) | call _ (.delete _) | call _ .snapshot | cleanup _ => True

/-- The operations on the store. -/
def storeOps : NodeStep V → List (Time × StoreOp V)
  | call clock (.put key value ttlSeconds) => [(clock 0, .put key value ttlSeconds)]
  | call clock (.get key) => [(clock 0, .get key)]
  | call clock (.delete key) => [(clock 0, .delete key)]
  | call clock .snapshot => [(clock 0, .items), (clock 0, .snapshot)]
  | cleanup now => [(now, .cleanup)]

end NodeStep

namespace NodeRuntime

def perform (rt : NodeRuntime V) : NodeStep V → NodeRuntime V
  | .call clock c => (rt.call clock c).2
  | .cleanup now => rt.cleanup now

def run (rt : NodeRuntime V) (steps : List (NodeStep V)) : NodeRuntime V := steps.foldl perform rt

/-- No entry of the store holds `None`. -/
def HoldsValues (rt : NodeRuntime V) : Prop :=
  ∀ key entry, rt.store.entries.get? key = some entry → entry.value ≠ none

/-- A get finds the key if and only if a snapshot lists it, and if and only if a delete of it
succeeds. -/
def ViewsAgree (rt : NodeRuntime V) (clock : Clock) (key : String) : Prop :=
  ((rt.getLocal clock key).1.1 = true ↔ key ∈ (rt.snapshot (clock 0)).1.entries) ∧
    (key ∈ (rt.snapshot (clock 0)).1.entries ↔
      (rt.deleteLocal clock key).1 = ⟨true, 200, "deleted"⟩)

variable {rt : NodeRuntime V} {clock : Clock} {key : String}

/-! ### Runs -/

theorem store_perform (rt : NodeRuntime V) (step : NodeStep V) :
    (rt.perform step).store = rt.store.run step.storeOps := by
  cases step with
  | call clock c => cases c <;> rfl
  | cleanup now => rfl

/-- The store of a runtime performs the operations of its run. -/
theorem store_run (rt : NodeRuntime V) (steps : List (NodeStep V)) :
    (rt.run steps).store = rt.store.run (steps.flatMap NodeStep.storeOps) := by
  induction steps generalizing rt with
  | nil => rfl
  | cons step steps ih =>
    rw [List.flatMap_cons, CacheStore.run, List.foldl_append, ← CacheStore.run, ← CacheStore.run,
      ← store_perform]
    exact ih (rt.perform step)

theorem HoldsValues.create (now : Time) (config : NodeConfig) {maxItems : ℕ} (h : 0 < maxItems) :
    (create now config maxItems h : NodeRuntime V).HoldsValues := by
  intro key entry hentry
  cases hentry

/-- An entry that an operation of a step writes holds the value of a put. -/
theorem value_of_written {step : NodeStep V} (hstep : step.PutsValue) {op : Time × StoreOp V}
    (hop : op ∈ step.storeOps) {entry : CacheEntry V}
    (h : CacheStore.written op.1 key op.2 = some (some entry)) : entry.value ≠ none := by
  cases step with
  | call clock c =>
    cases c with
    | put k value ttlSeconds =>
      rw [List.mem_singleton.mp hop, CacheStore.written] at h
      split_ifs at h
      rw [CacheStore.value_of_putEntry (Option.some.inj h)]
      exact hstep
    | get k =>
      rw [List.mem_singleton.mp hop] at h
      cases h
    | delete k =>
      rw [List.mem_singleton.mp hop, CacheStore.written] at h
      split_ifs at h
      cases h
    | snapshot =>
      rcases List.mem_pair.mp hop with rfl | rfl <;> cases h
  | cleanup now =>
    rw [List.mem_singleton.mp hop] at h
    cases h

/-- As long as the operations on a store write values, its entries hold values. -/
theorem value_of_run {store : CacheStore V} {ops : List (Time × StoreOp V)}
    (hstore : ∀ key entry, store.entries.get? key = some entry → entry.value ≠ none)
    (hops : ∀ op ∈ ops, ∀ key entry, CacheStore.written op.1 key op.2 = some (some entry) →
      entry.value ≠ none) {entry : CacheEntry V}
    (hentry : (store.run ops).entries.get? key = some entry) : entry.value ≠ none := by
  induction ops using List.reverseRecOn generalizing entry with
  | nil => exact hstore key entry hentry
  | append_singleton ops op ih =>
    obtain ⟨now, op⟩ := op
    rw [CacheStore.run_concat] at hentry
    rcases CacheStore.get?_perform hentry with hbefore | hwritten
    · exact ih (fun op hop => hops op (List.mem_append_left _ hop)) hbefore
    · exact hops _ List.mem_concat_self key entry hwritten

theorem HoldsValues.run (h : rt.HoldsValues) {steps : List (NodeStep V)}
    (hsteps : ∀ step ∈ steps, step.PutsValue) : (rt.run steps).HoldsValues := by
  intro key entry hentry
  rw [store_run] at hentry
  refine value_of_run h (fun op hop key entry hwritten => ?_) hentry
  obtain ⟨step, hstep, hop⟩ := List.mem_flatMap.mp hop
  exact value_of_written (hsteps step hstep) hop hwritten

/-! ### The views -/

theorem getLocal_found_iff (h : rt.HoldsValues) : (rt.getLocal clock key).1.1 = true ↔
    ∃ entry, rt.store.entries.get? key = some entry ∧ entry.isExpired (clock 0) = false := by
  change (rt.store.get (clock 0) key).1.isSome = true ↔ _
  rw [Option.isSome_iff_exists]
  constructor
  · rintro ⟨v, hv⟩
    obtain ⟨entry, hentry, hlive, -⟩ := CacheStore.fst_get_eq_some_iff.mp hv
    exact ⟨entry, hentry, hlive⟩
  · rintro ⟨entry, hentry, hlive⟩
    obtain ⟨v, hv⟩ := Option.ne_none_iff_exists'.mp (h key entry hentry)
    exact ⟨v, CacheStore.fst_get_eq_some_iff.mpr ⟨entry, hentry, hlive, hv⟩⟩

theorem mem_snapshot_iff {now : Time} : key ∈ (rt.snapshot now).1.entries ↔
    ∃ entry, rt.store.entries.get? key = some entry ∧ entry.isExpired now = false := by
  change key ∈ ((rt.store.dropExpired now).dropExpired now).entries ↔ _
  rw [OrderedDict.mem_iff_exists_get?]
  refine exists_congr fun entry => ?_
  rw [CacheStore.dropExpired, OrderedDict.get?_filter, CacheStore.dropExpired,
    OrderedDict.get?_filter, Option.filter_eq_some_iff, Option.filter_eq_some_iff, and_assoc,
    and_self, Bool.not_eq_true']

theorem deleteLocal_deleted_iff : (rt.deleteLocal clock key).1 = ⟨true, 200, "deleted"⟩ ↔
    ∃ entry, rt.store.entries.get? key = some entry := by
  change (if (rt.store.entries.get? key).isSome then _ else _) = _ ↔ _
  rw [← Option.isSome_iff_exists]
  split_ifs with h <;> simp [h]

/-- **The views of a node.** In every state that a runtime reaches by calls, whose puts have
values, and by cleanup passes: get, snapshot and delete agree on a key if and only if the store
does not hold an expired entry of the key. -/
theorem views_agree_iff {now : Time} {config : NodeConfig} {maxItems : ℕ} (hmax : 0 < maxItems)
    {steps : List (NodeStep V)} (hsteps : ∀ step ∈ steps, step.PutsValue) (clock : Clock)
    (key : String) :
    ((create now config maxItems hmax).run steps).ViewsAgree clock key ↔
      ∀ entry, ((create now config maxItems hmax).run steps).store.entries.get? key = some entry →
        entry.isExpired (clock 0) = false := by
  set rt := (create now config maxItems hmax).run steps
  have hvalues : rt.HoldsValues := (HoldsValues.create now config hmax).run hsteps
  rw [ViewsAgree, getLocal_found_iff hvalues, mem_snapshot_iff, deleteLocal_deleted_iff]
  constructor
  · rintro ⟨-, hdelete⟩ entry hentry
    obtain ⟨entry', hentry', hlive⟩ := hdelete.mpr ⟨entry, hentry⟩
    rwa [Option.some.inj (hentry.symm.trans hentry')]
  · intro hlive
    refine ⟨Iff.rfl, fun ⟨entry, hentry, _⟩ => ⟨entry, hentry⟩, ?_⟩
    rintro ⟨entry, hentry⟩
    exact ⟨entry, hentry, hlive entry hentry⟩

/-- `views_agree_iff` for an entry that a cleanup pass collected. -/
theorem views_agree_iff_collected :
    let steps : List (NodeStep ℕ) :=
      [.call (fun _ => 0) (.put "k" (some 5) (some 1)), .cleanup 2]
    ((create 0 ⟨"node-a", "localhost", 8001⟩ 1 Nat.one_pos).run steps).ViewsAgree
      (fun _ => 2) "k" := by
  intro steps
  have hgone : ((create 0 ⟨"node-a", "localhost", 8001⟩ 1 Nat.one_pos).run
      steps).store.entries.get? "k" = none := by decide +kernel
  refine (views_agree_iff Nat.one_pos ?_ _ "k").mpr ?_
  · intro step hstep
    rcases List.mem_pair.mp hstep with rfl | rfl
    · exact Option.some_ne_none 5
    · trivial
  · intro entry hentry
    cases hgone.symm.trans hentry

/-- The time of `k` is up: a get does not find it and a snapshot omits it, but a delete still
answers that it deleted it. -/
theorem delete_finds_expired :
    let step : NodeStep ℕ := .call (fun _ => 0) (.put "k" (some 5) (some 1))
    let rt := (create 0 ⟨"node-a", "localhost", 8001⟩ 1 Nat.one_pos).run [step]
    step.PutsValue ∧ (rt.getLocal (fun _ => 2) "k").1.1 = false ∧
      "k" ∉ (rt.snapshot 2).1.entries ∧
      (rt.deleteLocal (fun _ => 2) "k").1 = ⟨true, 200, "deleted"⟩ ∧
      ¬rt.ViewsAgree (fun _ => 2) "k" := by
  intro step rt
  have hlisted : "k" ∉ (rt.snapshot 2).1.entries := by decide +kernel
  have hdeleted : (rt.deleteLocal (fun _ => 2) "k").1 = ⟨true, 200, "deleted"⟩ := rfl
  refine ⟨Option.some_ne_none 5, by decide +kernel, hlisted, hdeleted, fun hagree => ?_⟩
  exact hlisted (hagree.2.mpr hdeleted)

end NodeRuntime

end DistributedCache
