import Mathlib.Data.List.Basic

/-!
# Runs of a labelled transition relation

A run follows a relation `R s e s'`, read as "the event `e` takes `s` to `s'`", along a list of
events. What one step preserves a whole run preserves, and a run along which an invariant holds
is a run of any relation that the steps meet on the states of the invariant.

## Main definitions

* `Run R s es t` : the events `es` take `s` to `t`.

## Main results

* `Run.invariant` : what every step preserves holds at the end of a run.
* `Run.mono_of_invariant` : steps that meet more on the states of an invariant.
* `Run.exists_losing_step` : what holds at first and not in the end is lost by some step.
* `Run.exists_of_simulation` : a relation that simulates another one has runs that look the same.
-/

namespace Library

variable {σ ε : Type*}

inductive Run (R : σ → ε → σ → Prop) : σ → List ε → σ → Prop
  | nil (s : σ) : Run R s [] s
  | cons {s s' t : σ} {e : ε} {es : List ε} (hstep : R s e s') (hrun : Run R s' es t) :
      Run R s (e :: es) t

namespace Run

variable {R : σ → ε → σ → Prop}

theorem single {s s' : σ} {e : ε} (h : R s e s') : Run R s [e] s' := .cons h (.nil s')

theorem append {s t u : σ} {es fs : List ε} (h : Run R s es t) (h' : Run R t fs u) :
    Run R s (es ++ fs) u := by
  induction h with
  | nil s => exact h'
  | cons hstep _ ih => exact .cons hstep (ih h')

theorem mono {R' : σ → ε → σ → Prop} (hle : ∀ s e s', R s e s' → R' s e s') {s t : σ}
    {es : List ε} (h : Run R s es t) : Run R' s es t := by
  induction h with
  | nil s => exact .nil s
  | cons hstep _ ih => exact .cons (hle _ _ _ hstep) ih

theorem mono_of_mem {R' : σ → ε → σ → Prop} {s t : σ} {es : List ε} (h : Run R s es t)
    (hle : ∀ s e s', e ∈ es → R s e s' → R' s e s') : Run R' s es t := by
  induction h with
  | nil s => exact .nil s
  | cons hstep _ ih =>
    exact .cons (hle _ _ _ List.mem_cons_self hstep)
      (ih fun s e s' he => hle s e s' (List.mem_cons_of_mem _ he))

/-- What every step preserves holds at the end of a run. -/
theorem invariant {I : σ → Prop} (hI : ∀ s e s', I s → R s e s' → I s') {s t : σ} {es : List ε}
    (h : Run R s es t) (hs : I s) : I t := by
  induction h with
  | nil s => exact hs
  | cons hstep _ ih => exact ih (hI _ _ _ hs hstep)

/-- Steps that meet more on the states of an invariant meet it along a run that begins in one. -/
theorem mono_of_invariant {R' : σ → ε → σ → Prop} {I : σ → Prop}
    (hI : ∀ s e s', I s → R s e s' → R' s e s' ∧ I s') {s t : σ} {es : List ε}
    (h : Run R s es t) (hs : I s) : Run R' s es t := by
  induction h with
  | nil s => exact .nil s
  | cons hstep _ ih =>
    obtain ⟨hstep', hs'⟩ := hI _ _ _ hs hstep
    exact .cons hstep' (ih hs')

/-- The run passes through the state `u`. -/
def Through (R : σ → ε → σ → Prop) (s : σ) (es : List ε) (t u : σ) : Prop :=
  ∃ es₁ es₂, es = es₁ ++ es₂ ∧ Run R s es₁ u ∧ Run R u es₂ t

/-- What holds at the beginning of a run and not at its end is lost by some step. -/
theorem exists_losing_step {P : σ → Prop} {s t : σ} {es : List ε} (h : Run R s es t) (hs : P s)
    (ht : ¬P t) : ∃ a e b, R a e b ∧ P a ∧ ¬P b ∧ Through R s es t a ∧ Through R s es t b := by
  induction h with
  | nil s => exact absurd hs ht
  | @cons s s' t e es hstep hrun ih =>
    by_cases hs' : P s'
    · obtain ⟨a, e', b, hab, ha, hb, ⟨es₁, es₂, rfl, h₁, h₂⟩, es₁', es₂', heq, h₁', h₂'⟩ := ih hs' ht
      refine ⟨a, e', b, hab, ha, hb, ⟨e :: es₁, es₂, rfl, .cons hstep h₁, h₂⟩,
        e :: es₁', es₂', ?_, .cons hstep h₁', h₂'⟩
      rw [heq, List.cons_append]
    · exact ⟨s, e, s', hstep, hs, hs', ⟨[], e :: es, rfl, .nil s, .cons hstep hrun⟩,
        [e], es, rfl, .single hstep, hrun⟩

theorem Through.invariant {I : σ → Prop} (hI : ∀ s e s', I s → R s e s' → I s') {s t u : σ}
    {es : List ε} (h : Through R s es t u) (hs : I s) : I u := by
  obtain ⟨es₁, es₂, -, h₁, -⟩ := h
  exact h₁.invariant hI hs

/-- A relation that simulates another one, each step by a run that looks the same, has a run that
looks the same for each run of the other. -/
theorem exists_of_simulation {τ δ α : Type*} {R' : τ → δ → τ → Prop} {Sim : σ → τ → Prop}
    {look : ε → List α} {look' : δ → List α}
    (hsim : ∀ s u e s', Sim s u → R s e s' →
      ∃ ds u', Run R' u ds u' ∧ ds.flatMap look' = look e ∧ Sim s' u')
    {s t : σ} {es : List ε} (h : Run R s es t) {u : τ} (hu : Sim s u) :
    ∃ ds u', Run R' u ds u' ∧ ds.flatMap look' = es.flatMap look ∧ Sim t u' := by
  induction h generalizing u with
  | nil s => exact ⟨[], u, .nil u, rfl, hu⟩
  | cons hstep _ ih =>
    obtain ⟨ds, v, hrun, hlook, hv⟩ := hsim _ _ _ _ hu hstep
    obtain ⟨ds', w, hrun', hlook', hw⟩ := ih hv
    refine ⟨ds ++ ds', w, hrun.append hrun', ?_, hw⟩
    rw [List.flatMap_append, hlook, hlook', List.flatMap_cons]

end Run

end Library
