import Mathlib.Data.List.Basic

/-!
# Linearizability

Calls to a shared object overlap: a call is invoked, takes effect at some moment, and is answered
later. The calls are linearizable when they could have been made one after another, with the
answers that were given and without turning around two calls of which one was answered before the
other was invoked.

A linearization is kept along a run. A call that is not answered yet may be added at its end, and
also in its middle, as long as it changes nothing there and no call that was answered before its
invocation comes later.

## Main definitions

* `Linearizable.CallEvent`, `Linearizable.Precedes` : histories and their order in real time.
* `Linearizable.Linearization` : calls one after another that explain a history.

## Main results

* `Linearizable.Linearization.invoke`, `Linearizable.Linearization.respond` : longer histories.
* `Linearizable.Linearization.concat`, `Linearizable.Linearization.sublist`,
  `Linearizable.Linearization.delay` : other linearizations of one history.
-/

namespace Library.Linearizable

variable {ι ω ρ α σ : Type*}

/-- A call is invoked or answered. -/
inductive CallEvent (ι ω ρ : Type*)
  | invoke (id : ι) (op : ω)
  | respond (id : ι) (response : ρ)

/-- A call with the answer that it has in a sequential history. -/
structure Entry (ι ω α : Type*) where
  id : ι
  op : ω
  answer : α

/-- The call was answered. -/
def Responded (h : List (CallEvent ι ω ρ)) (id : ι) : Prop := ∃ r, .respond id r ∈ h

/-- The call `a` was answered before the call `b` was invoked. -/
def Precedes (h : List (CallEvent ι ω ρ)) (a b : ι) : Prop :=
  ∃ h₁ h₂ op, h = h₁ ++ .invoke b op :: h₂ ∧ Responded h₁ a

/-- The state after the calls. -/
def after (step : σ → ω → σ × α) (s : σ) (es : List (Entry ι ω α)) : σ :=
  es.foldl (fun s e => (step s e.op).1) s

/-- The calls, made one after another, have these answers. -/
def Legal (step : σ → ω → σ × α) (s : σ) : List (Entry ι ω α) → Prop
  | [] => True
  | e :: es => (step s e.op).2 = e.answer ∧ Legal step (step s e.op).1 es

/-- The calls `es`, one after another, explain the history `h` of an object that is in the state
`s` at first: the answers are those of the object as far as `Tells` says, calls that did not
overlap are in their order, and no answered call is left out but those in `except`. -/
structure Linearization (step : σ → ω → σ × α) (Tells : ρ → α → Prop) (s : σ)
    (h : List (CallEvent ι ω ρ)) (except : ι → ρ → Prop) (es : List (Entry ι ω α)) :
    Prop where
  legal : Legal step s es
  nodup : es.Pairwise fun a b => a.id ≠ b.id
  invoked : ∀ e ∈ es, .invoke e.id e.op ∈ h
  order : es.Pairwise fun a b => ¬Precedes h b.id a.id
  answered : ∀ id r, .respond id r ∈ h →
    except id r ∨ ∃ e ∈ es, e.id = id ∧ Tells r e.answer

variable {step : σ → ω → σ × α} {Tells : ρ → α → Prop} {s : σ} {h : List (CallEvent ι ω ρ)}
  {except : ι → ρ → Prop} {es es₁ es₂ es₃ : List (Entry ι ω α)} {e : Entry ι ω α} {id a b : ι} {op : ω}
  {r : ρ}

/-! ### The order in real time -/

theorem Precedes.responded (hab : Precedes h a b) : Responded h a := by
  obtain ⟨h₁, h₂, op, rfl, r, hr⟩ := hab
  exact ⟨r, List.mem_append_left _ hr⟩

/-- An invocation adds to the order for the new call only. -/
theorem precedes_invoke (hab : Precedes (h ++ [.invoke id op]) a b) : Precedes h a b ∨ b = id := by
  obtain ⟨h₁, h₂, op', heq, hr⟩ := hab
  rcases List.eq_nil_or_concat h₂ with rfl | ⟨h₂, x, rfl⟩
  · obtain ⟨rfl, hlast⟩ := List.append_inj' heq rfl
    obtain ⟨rfl, -⟩ := CallEvent.invoke.inj (List.singleton_inj.mp hlast)
    exact Or.inr rfl
  · rw [List.concat_eq_append, ← List.cons_append, ← List.append_assoc] at heq
    obtain ⟨rfl, -⟩ := List.append_inj' heq rfl
    exact Or.inl ⟨h₁, h₂, op', rfl, hr⟩

/-- A response adds nothing to the order. -/
theorem precedes_respond (hab : Precedes (h ++ [.respond id r]) a b) : Precedes h a b := by
  obtain ⟨h₁, h₂, op', heq, hr⟩ := hab
  rcases List.eq_nil_or_concat h₂ with rfl | ⟨h₂, x, rfl⟩
  · obtain ⟨-, hlast⟩ := List.append_inj' heq rfl
    cases List.singleton_inj.mp hlast
  · rw [List.concat_eq_append, ← List.cons_append, ← List.append_assoc] at heq
    obtain ⟨rfl, -⟩ := List.append_inj' heq rfl
    exact ⟨h₁, h₂, op', rfl, hr⟩

/-! ### Sequential histories -/

theorem after_append (es₁ es₂ : List (Entry ι ω α)) :
    after step s (es₁ ++ es₂) = after step (after step s es₁) es₂ := List.foldl_append

@[simp] theorem after_singleton (e : Entry ι ω α) : after step s [e] = (step s e.op).1 := rfl

theorem legal_append :
    Legal step s (es₁ ++ es₂) ↔ Legal step s es₁ ∧ Legal step (after step s es₁) es₂ := by
  induction es₁ generalizing s with
  | nil => simp [Legal, after]
  | cons e es₁ ih =>
    rw [List.cons_append, Legal, ih, Legal, and_assoc]
    rfl

/-- Calls that change nothing may be left out. -/
theorem Legal.sublist (hes : Legal step s es) (hsub : es₁.Sublist es)
    (hkeep : ∀ e ∈ es, e ∈ es₁ ∨ ∀ s, (step s e.op).1 = s) (hnodup : es.Pairwise fun a b => a ≠ b) :
    Legal step s es₁ ∧ after step s es₁ = after step s es := by
  induction hsub generalizing s with
  | slnil => exact ⟨hes, rfl⟩
  | @cons l₁ l₂ e hsub ih =>
    rw [List.pairwise_cons] at hnodup
    have hidle : (step s e.op).1 = s := by
      refine (hkeep e List.mem_cons_self).resolve_left (fun hmem => ?_) s
      exact hnodup.1 e (hsub.subset hmem) rfl
    obtain ⟨hlegal, hafter⟩ := ih hes.2
      (fun e' he' => hkeep e' (List.mem_cons_of_mem _ he')) hnodup.2
    rw [hidle] at hlegal hafter
    refine ⟨hlegal, hafter.trans ?_⟩
    rw [after, after, List.foldl_cons, hidle]
  | @cons_cons l₁ l₂ e hsub ih =>
    rw [List.pairwise_cons] at hnodup
    have hkeep' : ∀ e' ∈ l₂, e' ∈ l₁ ∨ ∀ s, (step s e'.op).1 = s := fun e' he' =>
      (hkeep e' (List.mem_cons_of_mem _ he')).imp_left fun hmem =>
        (List.mem_cons.mp hmem).resolve_left (hnodup.1 e' he').symm
    obtain ⟨hlegal, hafter⟩ := ih hes.2 hkeep' hnodup.2
    exact ⟨⟨hes.1, hlegal⟩, hafter⟩

/-! ### Longer histories -/

namespace Linearization

/-- A new call is invoked. -/
theorem invoke (hlin : Linearization step Tells s h except es)
    (hnew : ∀ op, .invoke id op ∉ h) (op : ω) :
    Linearization step Tells s (h ++ [.invoke id op]) except es where
  legal := hlin.legal
  nodup := hlin.nodup
  invoked e he := List.mem_append_left _ (hlin.invoked e he)
  order := by
    refine hlin.order.imp_of_mem fun {a b} ha _ hab hprecedes => ?_
    rcases precedes_invoke hprecedes with hold | heq
    · exact hab hold
    · exact hnew a.op (heq ▸ hlin.invoked a ha)
  answered id' r hr := by
    rcases List.mem_append.mp hr with hr | hr
    · exact hlin.answered id' r hr
    · cases List.mem_singleton.mp hr

/-- A call is answered that is in the linearization with its answer, or is not asked for. -/
theorem respond (hlin : Linearization step Tells s h except es)
    (hr : except id r ∨ ∃ e ∈ es, e.id = id ∧ Tells r e.answer) :
    Linearization step Tells s (h ++ [.respond id r]) except es where
  legal := hlin.legal
  nodup := hlin.nodup
  invoked e he := List.mem_append_left _ (hlin.invoked e he)
  order := hlin.order.imp fun hab hprecedes => hab (precedes_respond hprecedes)
  answered id' r' hr' := by
    rcases List.mem_append.mp hr' with hr' | hr'
    · exact hlin.answered id' r' hr'
    · obtain ⟨rfl, rfl⟩ := CallEvent.respond.inj (List.mem_singleton.mp hr')
      exact hr

/-! ### Other linearizations of a history -/

/-- A call that is under way takes effect in the middle, where it changes nothing and after which
no call comes that was answered before its invocation. -/
theorem insert (hlin : Linearization step Tells s h except (es₁ ++ es₂))
    (hinvoked : .invoke e.id e.op ∈ h) (hopen : ¬Responded h e.id)
    (hnew : ∀ e' ∈ es₁ ++ es₂, e'.id ≠ e.id)
    (hanswer : step (after step s es₁) e.op = (after step s es₁, e.answer))
    (hlate : ∀ e' ∈ es₂, ¬Precedes h e'.id e.id) :
    Linearization step Tells s h except (es₁ ++ e :: es₂) where
  legal := by
    obtain ⟨h₁, h₂⟩ := legal_append.mp hlin.legal
    rw [legal_append, Legal, hanswer]
    exact ⟨h₁, rfl, h₂⟩
  nodup := by
    obtain ⟨h₁, h₂, h₁₂⟩ := List.pairwise_append.mp hlin.nodup
    refine List.pairwise_append.mpr ⟨h₁, List.pairwise_cons.mpr ⟨fun b hb => ?_, h₂⟩,
      fun a ha b hb => ?_⟩
    · exact (hnew b (List.mem_append_right _ hb)).symm
    · rcases List.mem_cons.mp hb with rfl | hb
      · exact hnew a (List.mem_append_left _ ha)
      · exact h₁₂ a ha b hb
  invoked e' he' := by
    rcases List.mem_append.mp he' with he' | he'
    · exact hlin.invoked e' (List.mem_append_left _ he')
    · rcases List.mem_cons.mp he' with rfl | he'
      · exact hinvoked
      · exact hlin.invoked e' (List.mem_append_right _ he')
  order := by
    obtain ⟨h₁, h₂, h₁₂⟩ := List.pairwise_append.mp hlin.order
    refine List.pairwise_append.mpr ⟨h₁, List.pairwise_cons.mpr ⟨hlate, h₂⟩, fun a ha b hb => ?_⟩
    rcases List.mem_cons.mp hb with rfl | hb
    · exact fun hprecedes => hopen hprecedes.responded
    · exact h₁₂ a ha b hb
  answered id r hr := by
    refine (hlin.answered id r hr).imp_right fun ⟨e', he', hid⟩ => ⟨e', ?_, hid⟩
    rcases List.mem_append.mp he' with he' | he'
    · exact List.mem_append_left _ he'
    · exact List.mem_append_right _ (List.mem_cons_of_mem _ he')

/-- A call that is under way takes effect. -/
theorem concat (hlin : Linearization step Tells s h except es)
    (hinvoked : .invoke e.id e.op ∈ h) (hopen : ¬Responded h e.id)
    (hnew : ∀ e' ∈ es, e'.id ≠ e.id) (hanswer : (step (after step s es) e.op).2 = e.answer) :
    Linearization step Tells s h except (es ++ [e]) where
  legal := legal_append.mpr ⟨hlin.legal, hanswer, trivial⟩
  nodup := by
    refine List.pairwise_append.mpr ⟨hlin.nodup, List.pairwise_singleton _ _, fun a ha b hb => ?_⟩
    rw [List.mem_singleton.mp hb]
    exact hnew a ha
  invoked e' he' := by
    rcases List.mem_append.mp he' with he' | he'
    · exact hlin.invoked e' he'
    · rw [List.mem_singleton.mp he']
      exact hinvoked
  order := by
    refine List.pairwise_append.mpr ⟨hlin.order, List.pairwise_singleton _ _, fun a ha b hb => ?_⟩
    rw [List.mem_singleton.mp hb]
    exact fun hprecedes => hopen hprecedes.responded
  answered id r hr := (hlin.answered id r hr).imp_right fun ⟨e', he', hid⟩ =>
    ⟨e', List.mem_append_left _ he', hid⟩

/-- Calls under way that change nothing may be left out. -/
theorem sublist (hlin : Linearization step Tells s h except es) (hsub : es₁.Sublist es)
    (hkeep : ∀ e ∈ es, e ∈ es₁ ∨ ¬Responded h e.id ∧ ∀ s, (step s e.op).1 = s) :
    Linearization step Tells s h except es₁ ∧ after step s es₁ = after step s es := by
  have hne : es.Pairwise fun a b => a ≠ b := hlin.nodup.imp fun hab heq => hab (congrArg Entry.id heq)
  obtain ⟨hlegal, hafter⟩ := hlin.legal.sublist hsub
    (fun e he => (hkeep e he).imp_right And.right) hne
  refine ⟨⟨hlegal, hlin.nodup.sublist hsub, fun e he => hlin.invoked e (hsub.subset he),
    hlin.order.sublist hsub, fun id r hr => ?_⟩, hafter⟩
  refine (hlin.answered id r hr).imp_right fun ⟨e, he, hid, htells⟩ => ⟨e, ?_, hid, htells⟩
  exact (hkeep e he).resolve_right fun hopen => hopen.1 (hid ▸ ⟨r, hr⟩)

/-- A call under way that changes nothing may be made later, and gets the answer it has there. -/
theorem delay (hlin : Linearization step Tells s h except (es₁ ++ e :: (es₂ ++ es₃)))
    (hopen : ¬Responded h e.id) (hidle : ∀ s, (step s e.op).1 = s) {answer : α}
    (hanswer : (step (after step s (es₁ ++ es₂)) e.op).2 = answer) :
    Linearization step Tells s h except (es₁ ++ es₂ ++ ⟨e.id, e.op, answer⟩ :: es₃) ∧
      after step s (es₁ ++ es₂ ++ ⟨e.id, e.op, answer⟩ :: es₃) =
        after step s (es₁ ++ e :: (es₂ ++ es₃)) := by
  have hmem : e ∈ es₁ ++ e :: (es₂ ++ es₃) :=
    List.mem_append_right _ List.mem_cons_self
  obtain ⟨-, hnodup, hids⟩ := List.pairwise_append.mp hlin.nodup
  obtain ⟨-, horder, -⟩ := List.pairwise_append.mp hlin.order
  have hnew : ∀ e' ∈ es₁ ++ es₂ ++ es₃, e'.id ≠ e.id := by
    intro e' he'
    rw [List.append_assoc] at he'
    rcases List.mem_append.mp he' with he' | he'
    · exact hids e' he' e List.mem_cons_self
    · exact ((List.pairwise_cons.mp hnodup).1 e' he').symm
  have hlate : ∀ e' ∈ es₃, ¬Precedes h e'.id e.id := fun e' he' =>
    (List.pairwise_cons.mp horder).1 e' (List.mem_append_right _ he')
  have hsub : (es₁ ++ es₂ ++ es₃).Sublist (es₁ ++ e :: (es₂ ++ es₃)) := by
    rw [List.append_assoc]
    exact (List.sublist_cons_self _ _).append_left es₁
  obtain ⟨hout, hafter⟩ := hlin.sublist hsub fun e' he' => by
      rw [List.append_assoc, List.mem_append]
      rcases List.mem_append.mp he' with he' | he'
      · exact Or.inl (Or.inl he')
      · rcases List.mem_cons.mp he' with rfl | he'
        · exact Or.inr ⟨hopen, hidle⟩
        · exact Or.inl (Or.inr he')
  refine ⟨hout.insert (hlin.invoked e hmem) hopen hnew (Prod.ext (hidle _) hanswer) hlate, ?_⟩
  rw [← hafter, after_append, after_append (es₁ ++ es₂)]
  change after step (step _ e.op).1 es₃ = _
  rw [hidle]

/-- More answers may be left out. -/
theorem mono {except' : ι → ρ → Prop} (hlin : Linearization step Tells s h except es)
    (hle : ∀ id r, except id r → except' id r) : Linearization step Tells s h except' es :=
  { hlin with answered := fun id r hr => (hlin.answered id r hr).imp_left (hle id r) }

end Linearization

end Library.Linearizable
