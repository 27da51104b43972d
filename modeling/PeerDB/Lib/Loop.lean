/-
Loops that leave early, and runs of a partial step function.

Two shapes of control cover every program of this development:

* a *loop body* `body : σ → ι → Flow ρ σ` reads one input per turn and either
  goes round again (`next`) or leaves the loop with a result (`leave`);
  `iterate` feeds it a list of inputs;
* a *step function* `step : σ → α → Option σ` fires one action, `none` when the
  action is not enabled; `runs` fires a list of actions.

The rules proved here are the only inductions over turns and steps the later
files use: `iterate_history` carries an invariant that may speak about the
inputs consumed so far, `leave_of_iterate` finds the turn at which a loop left,
`Along` states that every step of a run meets a side condition, and
`runs_invariant` carries an invariant along such a run; `runs_simulated` follows a run
with a computation that can fail.
-/
import Mathlib.Data.List.Induction
import Mathlib.Data.List.ReduceOption

namespace Loop

open List

variable {σ ι ρ α : Type*}

/-- What one turn of a loop does: go round again, or leave with a result. -/
inductive Flow (ρ σ : Type*) where
  | next (s : σ)
  | leave (r : ρ)

/-- Feed a loop body its inputs, stopping at the first turn that leaves. -/
def iterate (body : σ → ι → Flow ρ σ) : σ → List ι → Flow ρ σ
  | s, [] => .next s
  | s, i :: is =>
    match body s i with
    | .next s' => iterate body s' is
    | .leave r => .leave r

@[simp] theorem iterate_nil (body : σ → ι → Flow ρ σ) (s : σ) :
    iterate body s [] = .next s := rfl

theorem iterate_cons (body : σ → ι → Flow ρ σ) (s : σ) (i : ι) (is : List ι) :
    iterate body s (i :: is) =
      match body s i with
      | .next s' => iterate body s' is
      | .leave r => .leave r := rfl

/-- Splitting the input splits the loop. -/
theorem iterate_append (body : σ → ι → Flow ρ σ) (s : σ) (is js : List ι) :
    iterate body s (is ++ js) =
      match iterate body s is with
      | .next s' => iterate body s' js
      | .leave r => .leave r := by
  induction is generalizing s with
  | nil => rfl
  | cons i is ih =>
    rw [cons_append, iterate_cons, iterate_cons]
    cases body s i with
    | next s' => exact ih s'
    | leave r => rfl

/-- Inputs may be translated one by one. -/
theorem iterate_map {κ : Type*} (body : σ → ι → Flow ρ σ) (f : κ → ι) (s : σ) (ks : List κ) :
    iterate body s (ks.map f) = iterate (fun s k => body s (f k)) s ks := by
  induction ks generalizing s with
  | nil => rfl
  | cons k ks ih =>
    rw [map_cons, iterate_cons, iterate_cons]
    cases body s (f k) with
    | next s' => exact ih s'
    | leave r => rfl

/-- **Invariant rule with history.**  `Inv` may mention the inputs consumed so
far; it holds before the first turn and each turn that goes round, from a state
the loop has reached, keeps it. -/
theorem iterate_history {body : σ → ι → Flow ρ σ} {s₀ : σ} (Inv : List ι → σ → Prop)
    (h₀ : Inv [] s₀)
    (hstep : ∀ pre i s s', iterate body s₀ pre = .next s → Inv pre s → body s i = .next s' →
      Inv (pre ++ [i]) s') :
    ∀ {is : List ι} {s : σ}, iterate body s₀ is = .next s → Inv is s := by
  intro is
  induction is using List.reverseRecOn with
  | nil =>
    intro s h
    cases h
    exact h₀
  | append_singleton is i ih =>
    intro s h
    rw [iterate_append] at h
    cases hpre : iterate body s₀ is with
    | leave r =>
      rw [hpre] at h
      cases h
    | next s₁ =>
      rw [hpre] at h
      simp only [iterate_cons, iterate_nil] at h
      cases hi : body s₁ i with
      | leave r =>
        rw [hi] at h
        cases h
      | next s₂ =>
        rw [hi] at h
        cases h
        exact hstep is i s₁ s hpre (ih hpre) hi

/-- A loop that left did so at one turn, after turns that all went round. -/
theorem leave_of_iterate {body : σ → ι → Flow ρ σ} {r : ρ} :
    ∀ {is : List ι} {s₀ : σ}, iterate body s₀ is = .leave r →
      ∃ pre i post s, is = pre ++ i :: post ∧
        iterate body s₀ pre = .next s ∧ body s i = .leave r := by
  intro is
  induction is with
  | nil =>
    intro s₀ h
    cases h
  | cons i is ih =>
    intro s₀ h
    rw [iterate_cons] at h
    cases hi : body s₀ i with
    | leave r' =>
      rw [hi] at h
      cases h
      exact ⟨[], i, is, s₀, rfl, rfl, hi⟩
    | next s₁ =>
      rw [hi] at h
      obtain ⟨pre, j, post, s, hsplit, hpre, hleave⟩ := ih h
      refine ⟨i :: pre, j, post, s, by rw [hsplit]; rfl, ?_, hleave⟩
      rw [iterate_cons, hi]
      exact hpre

/-! ### Fallible computations -/

/-- A fold that succeeds also succeeds with a function that succeeds more often. -/
theorem foldlM_ok_mono {ε σ α : Type} {f g : σ → α → Except ε σ}
    (hfg : ∀ s a s', f s a = .ok s' → g s a = .ok s') :
    ∀ {l : List α} {s s' : σ}, l.foldlM f s = .ok s' → l.foldlM g s = .ok s' := by
  intro l
  induction l with
  | nil =>
    intro s s' h
    exact h
  | cons a l ih =>
    intro s s' h
    rw [foldlM_cons] at h ⊢
    cases ha : f s a with
    | error e =>
      rw [ha] at h
      cases h
    | ok t =>
      rw [ha] at h
      rw [hfg s a t ha]
      exact ih h

/-- A successful sequence of two computations, taken apart. -/
theorem bind_eq_ok {ε α β : Type} {x : Except ε α} {f : α → Except ε β} {b : β}
    (h : (x >>= f) = .ok b) : ∃ a, x = .ok a ∧ f a = .ok b := by
  cases x with
  | error e => cases h
  | ok a => exact ⟨a, rfl, h⟩

theorem seq_eq_ok {ε : Type} {a b : Except ε Unit} :
    (a >>= fun _ => b) = .ok () ↔ a = .ok () ∧ b = .ok () := by
  cases a with
  | error e => exact ⟨nofun, nofun⟩
  | ok _ => exact ⟨fun h => ⟨rfl, h⟩, And.right⟩

/-- A loop of checks ends without an error if every check does. -/
theorem forM_eq_ok {ε α : Type} {f : α → Except ε Unit} {l : List α} :
    l.forM f = .ok () ↔ ∀ x ∈ l, f x = .ok () := by
  induction l with
  | nil => exact ⟨fun _ => nofun, fun _ => rfl⟩
  | cons y l ih =>
    rw [forall_mem_cons, ← ih]
    exact seq_eq_ok

theorem toOption_eq_some {ε α : Type} {e : Except ε α} {a : α} (h : e.toOption = some a) :
    e = .ok a := by
  cases e with
  | error err => cases h
  | ok b =>
    cases h
    rfl

theorem mapError_eq_ok {ε ε' α : Type} {f : ε → ε'} {x : Except ε α} {a : α}
    (h : x.mapError f = .ok a) : x = .ok a := by
  cases x with
  | error e => cases h
  | ok b =>
    cases h
    rfl

theorem mapM_eq_ok {ε α β : Type} {f : α → Except ε β} {g : α → β} :
    ∀ {l : List α}, (∀ a ∈ l, f a = .ok (g a)) → l.mapM f = .ok (l.map g) := by
  intro l
  induction l with
  | nil =>
    intro _
    rfl
  | cons a l ih =>
    intro h
    have hrest := ih fun b hb => h b (mem_cons_of_mem a hb)
    rw [mapM_cons, h a mem_cons_self, hrest]
    rfl

/-- A computation that succeeds on a list succeeds on its members. -/
theorem mapM_mem_ok {ε α β : Type} {f : α → Except ε β} :
    ∀ {l : List α} {bs : List β}, l.mapM f = .ok bs → ∀ a ∈ l, ∃ b, f a = .ok b := by
  intro l
  induction l with
  | nil =>
    intro _ _ a ha
    cases ha
  | cons x l ih =>
    intro bs h a ha
    rw [mapM_cons] at h
    obtain ⟨b, hb, h⟩ := bind_eq_ok h
    obtain ⟨rest, hrest, -⟩ := bind_eq_ok h
    rcases mem_cons.mp ha with rfl | ha
    · exact ⟨b, hb⟩
    · exact ih hrest a ha

theorem mapM_length {ε α β : Type} {f : α → Except ε β} :
    ∀ {l : List α} {bs : List β}, l.mapM f = .ok bs → bs.length = l.length := by
  intro l
  induction l with
  | nil =>
    intro bs h
    cases h
    rfl
  | cons x l ih =>
    intro bs h
    rw [mapM_cons] at h
    obtain ⟨b, -, h⟩ := bind_eq_ok h
    obtain ⟨rest, hrest, h⟩ := bind_eq_ok h
    cases h
    rw [length_cons, length_cons, ih hrest]

/-- What it gives on a member is among what it gives on the list. -/
theorem mapM_mem_result {ε α β : Type} {f : α → Except ε β} :
    ∀ {l : List α} {bs : List β}, l.mapM f = .ok bs → ∀ a ∈ l, ∀ {b}, f a = .ok b → b ∈ bs := by
  intro l
  induction l with
  | nil =>
    intro _ _ a ha
    cases ha
  | cons x l ih =>
    intro bs h a ha b hb
    rw [mapM_cons] at h
    obtain ⟨b₁, hb₁, h⟩ := bind_eq_ok h
    obtain ⟨rest, hrest, h⟩ := bind_eq_ok h
    cases h
    rcases mem_cons.mp ha with rfl | ha
    · obtain rfl := Except.ok.inj (hb₁.symm.trans hb)
      exact mem_cons_self
    · exact mem_cons_of_mem b₁ (ih hrest a ha hb)

/-- The same for a computation that may also give nothing, where none does. -/
theorem mapM_reduceOption {ε α β : Type} {f : α → Except ε (Option β)} {g : α → β} {l : List α}
    (h : ∀ a ∈ l, f a = .ok (some (g a))) :
    (do let bs ← l.mapM f; return bs.reduceOption) = Except.ok (l.map g) := by
  have hsome : (l.map fun a => some (g a)).reduceOption = l.map g := by
    rw [List.reduceOption, filterMap_map]
    exact congrFun filterMap_eq_map l
  rw [mapM_eq_ok h]
  show Except.ok (List.reduceOption _) = _
  rw [hsome]

/-- Errors may be changed at every turn of a fold, or once at its end. -/
theorem foldlM_mapError {ε ε' σ ι : Type} (f : σ → ι → Except ε σ) (w : ε → ε') (is : List ι) :
    ∀ s : σ, is.foldlM (fun s i => (f s i).mapError w) s = (is.foldlM f s).mapError w := by
  induction is with
  | nil => exact fun s => rfl
  | cons i is ih =>
    intro s
    rw [foldlM_cons, foldlM_cons]
    cases f s i with
    | error e => rfl
    | ok s' => exact ih s'

/-- The invariant rule with history for a fold that can fail. -/
theorem foldlM_history {ε σ ι : Type} {f : σ → ι → Except ε σ} {s₀ : σ}
    (Inv : List ι → σ → Prop) (h₀ : Inv [] s₀)
    (hstep : ∀ pre i s s', Inv pre s → f s i = .ok s' → Inv (pre ++ [i]) s') :
    ∀ {is : List ι} {s : σ}, is.foldlM f s₀ = .ok s → Inv is s := by
  intro is
  induction is using List.reverseRecOn with
  | nil =>
    intro s h
    cases h
    exact h₀
  | append_singleton is i ih =>
    intro s h
    rw [foldlM_append] at h
    obtain ⟨s₁, hs₁, hlast⟩ := bind_eq_ok h
    rw [foldlM_cons] at hlast
    obtain ⟨s₂, hs₂, hnil⟩ := bind_eq_ok hlast
    cases hnil
    exact hstep is i s₁ s (ih hs₁) hs₂

/-! ### Runs of a partial step function -/

/-- Fire a list of actions; `none` if one of them is not enabled. -/
def runs (step : σ → α → Option σ) : σ → List α → Option σ
  | s, [] => some s
  | s, a :: as => (step s a).bind fun s' => runs step s' as

@[simp] theorem runs_nil (step : σ → α → Option σ) (s : σ) : runs step s [] = some s := rfl

@[simp] theorem runs_cons (step : σ → α → Option σ) (s : σ) (a : α) (as : List α) :
    runs step s (a :: as) = (step s a).bind fun s' => runs step s' as := rfl

theorem runs_append (step : σ → α → Option σ) (s : σ) (as bs : List α) :
    runs step s (as ++ bs) = (runs step s as).bind fun s' => runs step s' bs := by
  induction as generalizing s with
  | nil => rfl
  | cons a as ih =>
    rw [cons_append, runs_cons, runs_cons, Option.bind_assoc]
    congr 1
    funext s'
    exact ih s'

/-- Every step of the run from `s` along `as` meets `P`, which sees the state
before the step and the action. -/
def Along (step : σ → α → Option σ) (P : σ → α → Prop) : σ → List α → Prop
  | _, [] => True
  | s, a :: as => P s a ∧ ∀ s', step s a = some s' → Along step P s' as

variable {step : σ → α → Option σ} {P : σ → α → Prop}

theorem along_append {bs : List α} :
    ∀ {as : List α} {s s' : σ}, Along step P s (as ++ bs) → runs step s as = some s' →
      Along step P s as ∧ Along step P s' bs := by
  intro as
  induction as with
  | nil =>
    intro s s' h hrun
    cases hrun
    exact ⟨trivial, h⟩
  | cons a as ih =>
    intro s s' h hrun
    obtain ⟨s₁, hs₁, hrest⟩ := Option.bind_eq_some_iff.mp hrun
    have hafter := ih (h.2 s₁ hs₁) hrest
    refine ⟨⟨h.1, fun s₂ hs₂ => ?_⟩, hafter.2⟩
    obtain rfl := Option.some.inj (hs₁.symm.trans hs₂)
    exact hafter.1

theorem along_of_append {bs : List α} :
    ∀ {as : List α} {s s' : σ}, Along step P s as → runs step s as = some s' →
      Along step P s' bs → Along step P s (as ++ bs) := by
  intro as
  induction as with
  | nil =>
    intro s s' _ hrun hbs
    cases hrun
    exact hbs
  | cons a as ih =>
    intro s s' has hrun hbs
    obtain ⟨s₁, hs₁, hrest⟩ := Option.bind_eq_some_iff.mp hrun
    refine ⟨has.1, fun s₂ hs₂ => ?_⟩
    obtain rfl := Option.some.inj (hs₁.symm.trans hs₂)
    exact ih (has.2 s₁ hs₁) hrest hbs

/-- A side condition that every state allows for these actions. -/
theorem along_of_forall :
    ∀ {as : List α} {s : σ}, (∀ s, ∀ a ∈ as, P s a) → Along step P s as := by
  intro as
  induction as with
  | nil =>
    intro s _
    trivial
  | cons a as ih =>
    intro s h
    refine ⟨h s a mem_cons_self, fun s' _ => ih fun s'' b hb => ?_⟩
    exact h s'' b (mem_cons_of_mem a hb)

/-- `Along` for a side condition that can be evaluated. -/
def alongCheck (step : σ → α → Option σ) (P : σ → α → Prop) [∀ s a, Decidable (P s a)] :
    σ → List α → Bool
  | _, [] => true
  | s, a :: as =>
    decide (P s a) &&
      match step s a with
      | some s' => alongCheck step P s' as
      | none => true

theorem along_of_check [∀ s a, Decidable (P s a)] :
    ∀ {as : List α} {s : σ}, alongCheck step P s as = true → Along step P s as := by
  intro as
  induction as with
  | nil =>
    intro s _
    trivial
  | cons a as ih =>
    intro s h
    rw [alongCheck, Bool.and_eq_true] at h
    refine ⟨of_decide_eq_true h.1, fun s' hs' => ih ?_⟩
    have hrest := h.2
    rw [hs'] at hrest
    exact hrest

/-- **Invariant rule for runs with a side condition on the steps.** -/
theorem runs_invariant (Inv : σ → Prop)
    (hstep : ∀ s a s', Inv s → P s a → step s a = some s' → Inv s') :
    ∀ {as : List α} {s s' : σ}, Inv s → Along step P s as → runs step s as = some s' →
      Inv s' := by
  intro as
  induction as with
  | nil =>
    intro s s' hs _ h
    cases h
    exact hs
  | cons a as ih =>
    intro s s' hs hP h
    obtain ⟨s₁, hs₁, hrest⟩ := Option.bind_eq_some_iff.mp h
    exact ih (hstep s a s₁ hs hP.1 hs₁) (hP.2 s₁ hs₁) hrest

/-- **Termination rule.**  If every step lowers a measure, no run is longer than the measure
of the state it starts from. -/
theorem runs_length_le (μ : σ → ℕ) (Inv : σ → Prop)
    (hstep : ∀ s a s', Inv s → step s a = some s' → Inv s' ∧ μ s' < μ s) :
    ∀ {as : List α} {s s' : σ}, Inv s → runs step s as = some s' → as.length + μ s' ≤ μ s := by
  intro as
  induction as with
  | nil =>
    intro s s' _ h
    cases h
    simp
  | cons a as ih =>
    intro s s' hs h
    obtain ⟨s₁, hs₁, hrest⟩ := Option.bind_eq_some_iff.mp h
    obtain ⟨hinv, hlt⟩ := hstep s a s₁ hs hs₁
    have hle := ih hinv hrest
    rw [length_cons]
    omega

/-- The invariant rule with history for runs: `Inv` may mention the actions fired so far. -/
theorem runs_history {s₀ : σ} (Inv : List α → σ → Prop) (h₀ : Inv [] s₀)
    (hstep : ∀ pre a s s', Inv pre s → step s a = some s' → Inv (pre ++ [a]) s') :
    ∀ {as : List α} {s : σ}, runs step s₀ as = some s → Inv as s := by
  intro as
  induction as using List.reverseRecOn with
  | nil =>
    intro s h
    cases h
    exact h₀
  | append_singleton as a ih =>
    intro s h
    rw [runs_append] at h
    obtain ⟨s₁, hs₁, hlast⟩ := Option.bind_eq_some_iff.mp h
    obtain ⟨s₂, hs₂, hnil⟩ := Option.bind_eq_some_iff.mp hlast
    cases hnil
    exact hstep as a s₁ _ (ih hs₁) hs₂

theorem runs_keeps (Inv : σ → Prop) (hstep : ∀ s a s', Inv s → step s a = some s' → Inv s')
    {as : List α} {s s' : σ} (hs : Inv s) (h : runs step s as = some s') : Inv s' :=
  runs_history (fun _ s => Inv s) hs (fun _ a s s' => hstep s a s') h

theorem runs_forall {Q : α → Prop} (hstep : ∀ s a s', step s a = some s' → Q a) {as : List α}
    {s s' : σ} (h : runs step s as = some s') : ∀ a ∈ as, Q a := by
  refine runs_history (fun pre _ => ∀ a ∈ pre, Q a) (fun a ha => absurd ha not_mem_nil) ?_ h
  intro pre a s s' hpre hs b hb
  rcases mem_append.mp hb with hb | hb
  · exact hpre b hb
  · rw [mem_singleton.mp hb]
    exact hstep s a s' hs

/-- **Simulation.**  A computation that can do what every step of a run does can do
what the run does. -/
theorem runs_simulated {ε τ α : Type} {step : σ → α → Option σ} {f : τ → α → Except ε τ}
    {P : α → Prop} (R : σ → τ → Prop)
    (hstep : ∀ s t a s', R s t → P a → step s a = some s' → ∃ t', f t a = .ok t' ∧ R s' t') :
    ∀ {as : List α} {s s' : σ} {t : τ}, (∀ a ∈ as, P a) → R s t → runs step s as = some s' →
      ∃ t', as.foldlM f t = .ok t' ∧ R s' t' := by
  intro as
  induction as with
  | nil =>
    intro s s' t _ hR h
    cases h
    exact ⟨t, rfl, hR⟩
  | cons a as ih =>
    intro s s' t hP hR h
    obtain ⟨s₁, hs₁, hrest⟩ := Option.bind_eq_some_iff.mp h
    obtain ⟨t₁, ht₁, hR₁⟩ := hstep s t a s₁ hR (hP a mem_cons_self) hs₁
    obtain ⟨t', ht', hR'⟩ := ih (fun b hb => hP b (mem_cons_of_mem a hb)) hR₁ hrest
    refine ⟨t', ?_, hR'⟩
    rw [foldlM_cons, ht₁]
    exact ht'

end Loop
