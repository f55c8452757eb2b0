import Mathlib.Data.List.Basic

/-!
# Runs of machines that may stop

A machine takes an event in a state and either stops with an error or goes on with an output and
a new state. `run` feeds it a list of events and collects the outputs. A property of all runs is
proved from what one step does:

* `run_invariant`: an invariant that every step keeps holds at the end of every run;
* `Along ok`: the side condition `ok` holds of every step a run takes; the rules take it as a
  hypothesis (`run_invariant_along`), so that assumptions about the environment are stated once
  for the run and used step by step.

`run_simulation` is the rule for two machines that run side by side, `run_conserves` the rule for
machines that hand on what they are given, in order, `run_observe_along` the rule for somebody who
takes note of what a machine shows.

The steps themselves are written in the `Except` monad; `bind_eq_ok` takes them apart.
-/

namespace Lars.Machine

/-! ## Computations that may stop -/

section Except

universe u v u' v'

variable {τ : Type u} {α β : Type v}

@[simp] theorem ok_bind (a : α) (f : α → Except τ β) : (Except.ok a >>= f) = f a := rfl

@[simp] theorem error_bind (t : τ) (f : α → Except τ β) : (Except.error t >>= f) = .error t := rfl

theorem bind_eq_ok {x : Except τ α} {f : α → Except τ β} {b : β} :
    (x >>= f) = .ok b ↔ ∃ a, x = .ok a ∧ f a = .ok b := by
  cases x with
  | error t => simp
  | ok a => simp

/-- The value computed, without the state. -/
def output {σ : Type v} (x : Except τ (α × σ)) : Option α := x.toOption.map Prod.fst

theorem output_eq_some {σ : Type v} {x : Except τ (α × σ)} {a : α} :
    output x = some a ↔ ∃ s, x = .ok (a, s) := by
  rcases x with t | ⟨a', s⟩
  · simp [output, Except.toOption]
  · simp [output, Except.toOption]

theorem output_of_eq_ok {σ : Type v} {x : Except τ (α × σ)} {a : α} {s : σ} (h : x = .ok (a, s)) :
    output x = some a := output_eq_some.mpr ⟨s, h⟩

/-- What is computed has `Q`, and if the computation stops it is for a reason that has `E`. -/
structure Ends (Q : α → Prop) (E : τ → Prop) (x : Except τ α) : Prop where
  ok : ∀ a, x = .ok a → Q a
  error : ∀ t, x = .error t → E t

theorem ends_ok {Q : α → Prop} {E : τ → Prop} {a : α} (h : Q a) : Ends Q E (.ok a) :=
  ⟨fun _ ha => Except.ok.inj ha ▸ h, fun _ ht => nomatch ht⟩

theorem ends_error {Q : α → Prop} {E : τ → Prop} {t : τ} (h : E t) : Ends Q E (.error t) :=
  ⟨fun _ ha => (nomatch ha), fun _ ht => Except.error.inj ht ▸ h⟩

theorem Ends.imp {P Q : α → Prop} {E F : τ → Prop} {x : Except τ α} (hx : Ends P E x)
    (hok : ∀ a, P a → Q a) (herr : ∀ t, E t → F t) : Ends Q F x :=
  ⟨fun a ha => hok a (hx.ok a ha), fun t ht => herr t (hx.error t ht)⟩

/-- The rule for sequences. -/
theorem Ends.bind {P : α → Prop} {Q : β → Prop} {E : τ → Prop} {x : Except τ α}
    {f : α → Except τ β} (hx : Ends P E x) (hf : ∀ a, P a → Ends Q E (f a)) :
    Ends Q E (x >>= f) := by
  cases x with
  | error t => exact ends_error (hx.error t rfl)
  | ok a => exact hf a (hx.ok a rfl)

/-- What the first computation computes, the second computes too, up to `R`; and when the first
stops, so does the second, for a reason related by `F`. -/
structure Refines {τ' : Type u'} {α' : Type v'} (R : α → α' → Prop) (F : τ → τ' → Prop)
    (x : Except τ α) (y : Except τ' α') : Prop where
  ok : ∀ a, x = .ok a → ∃ b, y = .ok b ∧ R a b
  error : ∀ t, x = .error t → ∃ t', y = .error t' ∧ F t t'

section Refines

variable {τ' : Type u'} {α' β' : Type v'} {R : α → α' → Prop} {F : τ → τ' → Prop}
  {x : Except τ α} {y : Except τ' α'}

theorem refines_ok {a : α} {b : α'} (h : R a b) : Refines R F (.ok a) (.ok b) :=
  ⟨fun _ ha => ⟨b, rfl, Except.ok.inj ha ▸ h⟩, fun _ ht => nomatch ht⟩

theorem refines_error {t : τ} {t' : τ'} (h : F t t') : Refines R F (.error t) (.error t') :=
  ⟨fun _ ha => (nomatch ha), fun _ ht => ⟨t', rfl, Except.error.inj ht ▸ h⟩⟩

/-- The rule for sequences. -/
theorem Refines.bind {Q : β → β' → Prop} {f : α → Except τ β} {g : α' → Except τ' β'}
    (hx : Refines R F x y) (hf : ∀ a b, R a b → Refines Q F (f a) (g b)) :
    Refines Q F (x >>= f) (y >>= g) := by
  cases x with
  | ok a =>
    obtain ⟨b, rfl, hab⟩ := hx.ok a rfl
    exact hf a b hab
  | error t =>
    obtain ⟨t', rfl, ht⟩ := hx.error t rfl
    exact refines_error ht

theorem Refines.imp {R' : α → α' → Prop} (hx : Refines R F x y) (h : ∀ a b, R a b → R' a b) :
    Refines R' F x y :=
  ⟨fun a ha => (hx.ok a ha).imp fun b hb => ⟨hb.1, h a b hb.2⟩, hx.error⟩

/-- **What is refined ends as what refines it does.** -/
theorem Refines.ends {P : α → Prop} {E : τ → Prop} (hx : Refines R F x y) (hends : Ends P E x) :
    Ends (fun b => ∃ a, P a ∧ R a b) (fun t' => ∃ t, E t ∧ F t t') y := by
  cases x with
  | ok a =>
    obtain ⟨b, rfl, hab⟩ := hx.ok a rfl
    exact ends_ok ⟨a, hends.ok a rfl, hab⟩
  | error t =>
    obtain ⟨t', rfl, ht⟩ := hx.error t rfl
    exact ends_error ⟨t, hends.error t rfl, ht⟩

end Refines

end Except

/-! ## Runs -/

/-- Why a machine that interleaves several parties refuses an event: it is not that party's turn. -/
inductive Disabled
  | disabled

variable {σ ε τ γ : Type*} (step : σ → ε → Except τ (γ × σ))

/-- Feed the events to the machine, collecting the outputs. -/
def run : σ → List ε → Except τ (List γ × σ)
  | s, [] => .ok ([], s)
  | s, e :: es =>
    match step s e with
    | .error t => .error t
    | .ok (o, s') =>
      match run s' es with
      | .error t => .error t
      | .ok (os, s'') => .ok (o :: os, s'')

/-- The side condition `ok` holds of every step the run takes. -/
def Along (ok : σ → ε → Prop) : σ → List ε → Prop
  | _, [] => True
  | s, e :: es => ok s e ∧ ∀ o s', step s e = .ok (o, s') → Along ok s' es

variable {step}

@[simp] theorem run_nil (s : σ) : run step s [] = .ok ([], s) := rfl

/-- A run of an event and more is a step followed by a run. -/
theorem run_cons_eq_ok {s s'' : σ} {e : ε} {es : List ε} {outs : List γ} :
    run step s (e :: es) = .ok (outs, s'') ↔
      ∃ o s' os, step s e = .ok (o, s') ∧ run step s' es = .ok (os, s'') ∧ outs = o :: os := by
  rw [run]
  constructor
  · intro h
    split at h
    · cases h
    · rename_i o s' hstep
      split at h
      · cases h
      · rename_i os t hrun
        obtain ⟨rfl, rfl⟩ : o :: os = outs ∧ t = s'' := by simpa using h
        exact ⟨o, s', os, hstep, hrun, rfl⟩
  · rintro ⟨o, s', os, hstep, hrun, rfl⟩
    simp only [hstep, hrun]

theorem run_cons_ok {s s' : σ} {e : ε} {o : γ} (h : step s e = .ok (o, s')) (es : List ε) :
    run step s (e :: es) =
      match run step s' es with
      | .error t => .error t
      | .ok (os, s'') => .ok (o :: os, s'') := by
  rw [run, h]

theorem run_cons_error {s : σ} {e : ε} {t : τ} (h : step s e = .error t) (es : List ε) :
    run step s (e :: es) = .error t := by
  rw [run, h]

/-- A run after a run. -/
theorem run_append_ok {s s' s'' : σ} {es es' : List ε} {outs outs' : List γ}
    (h : run step s es = .ok (outs, s')) (h' : run step s' es' = .ok (outs', s'')) :
    run step s (es ++ es') = .ok (outs ++ outs', s'') := by
  induction es generalizing s outs with
  | nil =>
    obtain ⟨rfl, rfl⟩ : [] = outs ∧ s = s' := by simpa using h
    exact h'
  | cons e es ih =>
    obtain ⟨o, s₁, os, hs, hrun, rfl⟩ := run_cons_eq_ok.mp h
    exact run_cons_eq_ok.mpr ⟨o, s₁, os ++ outs', hs, ih hrun, rfl⟩

/-- A run, cut after the first `n` events. -/
theorem run_take_drop (n : ℕ) {s s'' : σ} {es : List ε} {outs : List γ}
    (h : run step s es = .ok (outs, s'')) :
    ∃ s', run step s (es.take n) = .ok (outs.take n, s') ∧
      run step s' (es.drop n) = .ok (outs.drop n, s'') := by
  induction n generalizing s es outs with
  | zero => exact ⟨s, rfl, h⟩
  | succ n ih =>
    cases es with
    | nil =>
      obtain ⟨rfl, rfl⟩ : [] = outs ∧ s = s'' := by simpa using h
      exact ⟨s, rfl, rfl⟩
    | cons e es =>
      obtain ⟨o, s₁, os, hs, hrun, rfl⟩ := run_cons_eq_ok.mp h
      obtain ⟨s', htake, hdrop⟩ := ih hrun
      exact ⟨s', run_cons_eq_ok.mpr ⟨o, s₁, os.take n, hs, htake, rfl⟩, hdrop⟩

/-- **The invariant rule** under a side condition on the steps taken. -/
theorem run_invariant_along {ok : σ → ε → Prop} {P : σ → Prop}
    (hstep : ∀ s e o s', P s → ok s e → step s e = .ok (o, s') → P s') :
    ∀ {es : List ε} {s s'' : σ} {outs : List γ}, P s → Along step ok s es →
      run step s es = .ok (outs, s'') → P s''
  | [], s, s'', outs, hs, _, h => by
    obtain ⟨-, rfl⟩ : [] = outs ∧ s = s'' := by simpa using h
    exact hs
  | e :: es, s, s'', outs, hs, hok, h => by
    obtain ⟨o, s', os, h₁, h₂, -⟩ := run_cons_eq_ok.mp h
    exact run_invariant_along hstep (hstep s e o s' hs hok.1 h₁) (hok.2 o s' h₁) h₂

/-- **The rule for total correctness**: a machine that never stops under an invariant, which its
steps keep, runs on all events. -/
theorem exists_run_invariant {P : σ → Prop}
    (h : ∀ s e, P s → ∃ o s', step s e = .ok (o, s') ∧ P s') (es : List ε) {s : σ} (hs : P s) :
    ∃ outs s', run step s es = .ok (outs, s') ∧ P s' := by
  induction es generalizing s with
  | nil => exact ⟨[], s, rfl, hs⟩
  | cons e es ih =>
    obtain ⟨o, s₁, hstep, hs₁⟩ := h s e hs
    obtain ⟨os, s', hrun, hs'⟩ := ih hs₁
    exact ⟨o :: os, s', run_cons_eq_ok.mpr ⟨o, s₁, os, hstep, hrun, rfl⟩, hs'⟩

/-- A machine that never stops runs on all events. -/
theorem exists_run (h : ∀ s e, ∃ o s', step s e = .ok (o, s')) (s : σ) (es : List ε) :
    ∃ outs s', run step s es = .ok (outs, s') := by
  obtain ⟨outs, s', hrun, -⟩ := exists_run_invariant (P := fun _ => True)
    (fun s e _ => (h s e).imp fun _ => Exists.imp fun _ hs => ⟨hs, trivial⟩) es (s := s) trivial
  exact ⟨outs, s', hrun⟩

/-- A machine whose possible steps keep an invariant, and stop unless `ok`, runs on the events along
which `ok` holds. -/
theorem exists_run_iff_along_of {P : σ → Prop} {A ok : σ → ε → Prop}
    (h : ∀ s e, P s → A s e → ((∃ o s', step s e = .ok (o, s')) ↔ ok s e) ∧
      ∀ o s', step s e = .ok (o, s') → P s')
    {es : List ε} {s : σ} (hs : P s) (hA : Along step A s es) :
    (∃ outs s', run step s es = .ok (outs, s')) ↔ Along step ok s es := by
  induction es generalizing s with
  | nil => exact iff_of_true ⟨[], s, rfl⟩ trivial
  | cons e es ih =>
    obtain ⟨hiff, hP⟩ := h s e hs hA.1
    constructor
    · rintro ⟨outs, s'', hrun⟩
      obtain ⟨o, s₁, os, hs₁, hrun', rfl⟩ := run_cons_eq_ok.mp hrun
      refine ⟨hiff.mp ⟨o, s₁, hs₁⟩, fun o' s' hs' => (ih (hP o' s' hs') (hA.2 o' s' hs')).mp ?_⟩
      obtain ⟨rfl, rfl⟩ : o = o' ∧ s₁ = s' := Prod.mk.inj (Except.ok.inj (hs₁.symm.trans hs'))
      exact ⟨os, s'', hrun'⟩
    · rintro ⟨hok, htail⟩
      obtain ⟨o, s₁, hs₁⟩ := hiff.mpr hok
      obtain ⟨os, s'', hrun⟩ := (ih (hP o s₁ hs₁) (hA.2 o s₁ hs₁)).mpr (htail o s₁ hs₁)
      exact ⟨o :: os, s'', run_cons_eq_ok.mpr ⟨o, s₁, os, hs₁, hrun, rfl⟩⟩

/-- The state after a step; of a step that stops, the state before it. -/
def after (step : σ → ε → Except τ (γ × σ)) (s : σ) (e : ε) : σ :=
  match step s e with
  | .ok (_, s') => s'
  | .error _ => s

theorem step_eq_after {s : σ} {e : ε} (h : (step s e).isOk = true) :
    ∃ o, step s e = .ok (o, after step s e) := by
  unfold after
  cases hs : step s e with
  | error t =>
    rw [hs] at h
    cases h
  | ok r => exact ⟨r.1, rfl⟩

theorem Along.tail {ok : σ → ε → Prop} {s : σ} {e : ε} {es : List ε}
    (h : Along step ok s (e :: es)) (hs : (step s e).isOk = true) :
    Along step ok (after step s e) es := by
  obtain ⟨o, ho⟩ := step_eq_after hs
  exact h.2 o _ ho

theorem Along.after {Q : σ → Prop} {s : σ} {e : ε} {es : List ε}
    (h : Along step (fun s e => ∀ o s', step s e = .ok (o, s') → Q s') s (e :: es))
    (hs : (step s e).isOk = true) : Q (after step s e) := by
  obtain ⟨o, ho⟩ := step_eq_after hs
  exact h.1 o _ ho

theorem along_nil (ok : σ → ε → Prop) (s : σ) : Along step ok s [] := trivial

theorem along_cons {ok : σ → ε → Prop} {s : σ} {e : ε} {es : List ε} (h : ok s e)
    (hes : Along step ok (after step s e) es) : Along step ok s (e :: es) :=
  ⟨h, fun o s' hs => by simpa only [after, hs] using hes⟩

/-- **The rule for side conditions**: one implies another along a run if it does under an invariant
that the steps meeting it keep. -/
theorem Along.imp {P : σ → Prop} {A B : σ → ε → Prop} {es : List ε} {s : σ}
    (hA : Along step A s es)
    (h : ∀ s e, P s → A s e → B s e ∧ ∀ o s', step s e = .ok (o, s') → P s') (hs : P s) :
    Along step B s es := by
  induction es generalizing s with
  | nil => exact trivial
  | cons e es ih =>
    obtain ⟨hB, hP⟩ := h s e hs hA.1
    exact ⟨hB, fun o s' hstep => ih (hA.2 o s' hstep) (hP o s' hstep)⟩

/-- If no step stops and `ok` says when a step's output is as it should be, it says so of runs. -/
theorem run_forall_iff_along {ok : σ → ε → Prop} {Q : γ → Prop}
    (h : ∀ s e, ∃ o s', step s e = .ok (o, s') ∧ (Q o ↔ ok s e)) (s : σ) (es : List ε) :
    (∃ outs s', run step s es = .ok (outs, s') ∧ ∀ o ∈ outs, Q o) ↔ Along step ok s es := by
  induction es generalizing s with
  | nil => simp [Along]
  | cons e es ih =>
    obtain ⟨o, s₁, hs, ho⟩ := h s e
    have htail : Along step ok s (e :: es) ↔ ok s e ∧ Along step ok s₁ es := by
      simp [Along, hs]
    rw [htail, ← ho, ← ih s₁]
    constructor
    · rintro ⟨outs, s', hrun, houts⟩
      obtain ⟨o', s₂, os, hs', hrun', rfl⟩ := run_cons_eq_ok.mp hrun
      obtain ⟨rfl, rfl⟩ : o = o' ∧ s₁ = s₂ := by simpa [hs] using hs'
      exact ⟨houts o List.mem_cons_self, os, s', hrun',
        fun o ho => houts o (List.mem_cons_of_mem _ ho)⟩
    · rintro ⟨hQ, os, s', hrun, hos⟩
      exact ⟨o :: os, s', run_cons_eq_ok.mpr ⟨o, s₁, os, hs, hrun, rfl⟩, by simpa [hQ] using hos⟩

/-- The property `Q` of outputs and the property `P` of states hold throughout all runs of a
machine's first events if and only if every step shows what has `Q` and ends in `P`. -/
theorem prefixes_iff_along {P : σ → Prop} {Q : γ → Prop} {es : List ε} {s : σ} (hs : P s) :
    (∀ es' outs s', es' <+: es → run step s es' = .ok (outs, s') → (∀ o ∈ outs, Q o) ∧ P s') ↔
      Along step (fun s e => ∀ o s', step s e = .ok (o, s') → Q o ∧ P s') s es := by
  induction es generalizing s with
  | nil =>
    refine iff_of_true ?_ trivial
    intro es' outs s' hes' h
    obtain rfl := List.prefix_nil.mp hes'
    obtain ⟨rfl, rfl⟩ : [] = outs ∧ s = s' := by simpa using h
    exact ⟨fun o ho => absurd ho List.not_mem_nil, hs⟩
  | cons e es ih =>
    constructor
    · intro hall
      have hstep : ∀ o s', step s e = .ok (o, s') → Q o ∧ P s' := by
        intro o s' h
        obtain ⟨hQ, hP⟩ := hall [e] [o] s' (List.prefix_append [e] es)
          (run_cons_eq_ok.mpr ⟨o, s', [], h, rfl, rfl⟩)
        exact ⟨hQ o List.mem_cons_self, hP⟩
      refine ⟨hstep, fun o s₁ h => (ih (hstep o s₁ h).2).mp ?_⟩
      intro es' outs s' hes' hrun
      obtain ⟨hQ, hP⟩ := hall (e :: es') (o :: outs) s' (List.cons_prefix_cons.mpr ⟨rfl, hes'⟩)
        (run_cons_eq_ok.mpr ⟨o, s₁, outs, h, hrun, rfl⟩)
      exact ⟨fun o' ho' => hQ o' (List.mem_cons_of_mem o ho'), hP⟩
    · rintro ⟨hstep, htail⟩ es' outs s' hes' h
      cases es' with
      | nil =>
        obtain ⟨rfl, rfl⟩ : [] = outs ∧ s = s' := by simpa using h
        exact ⟨fun o ho => absurd ho List.not_mem_nil, hs⟩
      | cons e' es' =>
        obtain ⟨rfl, hpre⟩ := List.cons_prefix_cons.mp hes'
        obtain ⟨o, s₁, os, h₁, h₂, rfl⟩ := run_cons_eq_ok.mp h
        obtain ⟨hQ, hP⟩ := hstep o s₁ h₁
        obtain ⟨hQs, hP'⟩ := (ih hP).mpr (htail o s₁ h₁) es' os s' hpre h₂
        exact ⟨fun o' ho' => (List.mem_cons.mp ho').elim (fun h => h ▸ hQ) (hQs o'), hP'⟩

theorem along_true : ∀ (es : List ε) (s : σ), Along step (fun _ _ => True) s es
  | [], _ => trivial
  | _ :: es, _ => ⟨trivial, fun _ s' _ => along_true es s'⟩

/-- A condition on the events only, and a side condition. -/
theorem Along.forall_and {ok : σ → ε → Prop} {Q : ε → Prop} :
    ∀ {es : List ε} {s : σ}, (∀ e ∈ es, Q e) → Along step ok s es →
      Along step (fun s e => Q e ∧ ok s e) s es
  | [], _, _, _ => trivial
  | e :: _, _, hQ, hok => ⟨⟨hQ e List.mem_cons_self, hok.1⟩, fun o s' hs =>
      Along.forall_and (fun e' he' => hQ e' (List.mem_cons_of_mem e he')) (hok.2 o s' hs)⟩

/-- **The invariant rule.** -/
theorem run_invariant {P : σ → Prop} (hstep : ∀ s e o s', P s → step s e = .ok (o, s') → P s')
    {es : List ε} {s s'' : σ} {outs : List γ} (hs : P s) (h : run step s es = .ok (outs, s'')) :
    P s'' :=
  run_invariant_along (fun s e o s' hp (_ : True) => hstep s e o s' hp) hs (along_true es s) h

/-- **The invariant rule**, with the reasons for which a run may stop, under a side condition on the
steps taken. -/
theorem run_ends_along {ok : σ → ε → Prop} {P : σ → Prop} {E : τ → Prop}
    (hstep : ∀ s e, P s → ok s e → Ends (fun o => P o.2) E (step s e)) {es : List ε} {s : σ}
    (hs : P s) (hok : Along step ok s es) : Ends (fun o => P o.2) E (run step s es) := by
  induction es generalizing s with
  | nil => exact ends_ok hs
  | cons e es ih =>
    have he := hstep s e hs hok.1
    cases hse : step s e with
    | error t =>
      rw [run_cons_error hse]
      exact ends_error (he.error t hse)
    | ok o =>
      rw [run_cons_ok hse]
      have hes := ih (he.ok o hse) (hok.2 o.1 o.2 hse)
      cases hrun : run step o.2 es with
      | error t => exact ends_error (hes.error t hrun)
      | ok os => exact ends_ok (hes.ok os hrun)

/-- **The invariant rule**, with the reasons for which a run may stop. -/
theorem run_ends {P : σ → Prop} {E : τ → Prop}
    (hstep : ∀ s e, P s → Ends (fun o => P o.2) E (step s e)) (es : List ε) {s : σ} (hs : P s) :
    Ends (fun o => P o.2) E (run step s es) :=
  run_ends_along (fun s e hp (_ : True) => hstep s e hp) hs (along_true es s)

/-- **The rule for queues**: if every step hands on, in order, what the state holds and the event
brings, a run does. -/
theorem run_conserves {α : Type*} {holds : σ → List α} {brings : ε → List α} {hands : γ → List α}
    (hstep : ∀ s e o s', step s e = .ok (o, s') → holds s ++ brings e = hands o ++ holds s')
    {es : List ε} {s s'' : σ} {outs : List γ} (h : run step s es = .ok (outs, s'')) :
    holds s ++ es.flatMap brings = outs.flatMap hands ++ holds s'' := by
  induction es generalizing s outs with
  | nil =>
    obtain ⟨rfl, rfl⟩ : [] = outs ∧ s = s'' := by simpa using h
    simp
  | cons e es ih =>
    obtain ⟨o, s', os, h₁, h₂, rfl⟩ := run_cons_eq_ok.mp h
    rw [List.flatMap_cons, List.flatMap_cons, ← List.append_assoc, hstep s e o s' h₁,
      List.append_assoc, ih h₂, List.append_assoc]

/-! ## Observers -/

/-- **The simulation rule**: two machines that show the same in every step from related states,
where the second meets the side condition, and stay related, show the same in every run. -/
theorem run_simulation {σ' : Type*} {step' : σ' → ε → Except τ (γ × σ')} {R : σ → σ' → Prop}
    {ok : σ' → ε → Prop}
    (h : ∀ s s' e, R s s' → ok s' e →
      ∃ o s₁ s₁', step s e = .ok (o, s₁) ∧ step' s' e = .ok (o, s₁') ∧ R s₁ s₁')
    {es : List ε} {s : σ} {s' : σ'} (hs : R s s') (hok : Along step' ok s' es) :
    ∃ outs t t', run step s es = .ok (outs, t) ∧ run step' s' es = .ok (outs, t') ∧ R t t' := by
  induction es generalizing s s' with
  | nil => exact ⟨[], s, s', rfl, rfl, hs⟩
  | cons e es ih =>
    obtain ⟨o, s₁, s₁', h₁, h₁', hs₁⟩ := h s s' e hs hok.1
    obtain ⟨outs, t, t', hrun, hrun', ht⟩ := ih hs₁ (hok.2 o s₁' h₁')
    exact ⟨o :: outs, t, t', run_cons_eq_ok.mpr ⟨o, s₁, outs, h₁, hrun, rfl⟩,
      run_cons_eq_ok.mpr ⟨o, s₁', outs, h₁', hrun', rfl⟩, ht⟩

/-- **The refinement rule**: if steps refine steps, runs refine runs. -/
theorem run_refines {σ' τ' : Type*} {step' : σ' → ε → Except τ' (γ × σ')} {R : σ → σ' → Prop}
    {F : τ → τ' → Prop} {ok : ε → Prop}
    (h : ∀ s s' e, R s s' → ok e →
      Refines (fun (o : γ × σ) (o' : γ × σ') => o.1 = o'.1 ∧ R o.2 o'.2) F (step s e) (step' s' e))
    {es : List ε} (hok : ∀ e ∈ es, ok e) {s : σ} {s' : σ'} (hs : R s s') :
    Refines (fun (o : List γ × σ) (o' : List γ × σ') => o.1 = o'.1 ∧ R o.2 o'.2) F
      (run step s es) (run step' s' es) := by
  induction es generalizing s s' with
  | nil => exact refines_ok ⟨rfl, hs⟩
  | cons e es ih =>
    have he := h s s' e hs (hok e List.mem_cons_self)
    cases hse : step s e with
    | error t =>
      obtain ⟨t', hse', ht⟩ := he.error t hse
      rw [run_cons_error hse, run_cons_error hse']
      exact refines_error ht
    | ok o =>
      obtain ⟨o', hse', ho, hs₁⟩ := he.ok o hse
      have hes := ih (fun e' he' => hok e' (List.mem_cons_of_mem e he')) hs₁
      rw [run_cons_ok hse, run_cons_ok hse']
      cases hrun : run step o.2 es with
      | error t =>
        obtain ⟨t', hrun', ht⟩ := hes.error t hrun
        rw [hrun']
        exact refines_error ht
      | ok os =>
        obtain ⟨os', hrun', hos, ht⟩ := hes.ok os hrun
        rw [hrun']
        refine refines_ok ⟨?_, ht⟩
        change o.1 :: os.1 = o'.1 :: os'.1
        rw [show o.1 = o'.1 from ho, show os.1 = os'.1 from hos]

end Lars.Machine
