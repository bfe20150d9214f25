import Mathlib.Data.List.Induction

/-!
# Runs of a step function

A transition system here is a partial step function: `step s l` is the state
after `l`, or `none` where `l` is not enabled. `run` folds it over a list of
labels, and `Along` says that something holds of every step a run takes.

The two rules that carry every safety proof are `run_inv` (an invariant kept by
each step holds wherever a run ends) and `along_mono` (if each step meets a
condition, and the condition together with an invariant gives a property, then
each step has the property); `along_congr` is the second in both directions.
-/

namespace Kubpf.Lib

variable {σ ℓ : Type}

/-- The state a list of labels leads to. -/
def run (step : σ → ℓ → Option σ) : σ → List ℓ → Option σ
  | s, [] => some s
  | s, l :: ls =>
    match step s l with
    | none => none
    | some s' => run step s' ls

/-- `P` holds of every step taken from `s` along `ls`. -/
def Along (step : σ → ℓ → Option σ) (P : σ → ℓ → Prop) : σ → List ℓ → Prop
  | _, [] => True
  | s, l :: ls => P s l ∧
    match step s l with
    | none => True
    | some s' => Along step P s' ls

instance Along.decidable (step : σ → ℓ → Option σ) (P : σ → ℓ → Prop)
    [∀ s l, Decidable (P s l)] : ∀ s ls, Decidable (Along step P s ls)
  | _, [] => .isTrue trivial
  | s, l :: ls =>
    match h : step s l with
    | none => decidable_of_iff (P s l) (by rw [Along, h]; exact Iff.of_eq (and_true _).symm)
    | some s' =>
      have := Along.decidable step P s' ls
      decidable_of_iff (P s l ∧ Along step P s' ls) (by rw [Along, h])

variable {step : σ → ℓ → Option σ}

@[simp] theorem run_nil (s : σ) : run step s [] = some s := rfl

theorem run_cons {s s' : σ} {l : ℓ} (h : step s l = some s') (ls : List ℓ) :
    run step s (l :: ls) = run step s' ls := by
  rw [run, h]

/-- A non-empty run takes its first step and goes on from there. -/
theorem run_cons_eq_some {s t : σ} {l : ℓ} {ls : List ℓ} (h : run step s (l :: ls) = some t) :
    ∃ s', step s l = some s' ∧ run step s' ls = some t := by
  rw [run] at h
  split at h
  · exact absurd h (by simp)
  · rename_i s' hs
    exact ⟨s', hs, h⟩

theorem run_append {ls₁ ls₂ : List ℓ} {s s' : σ} (h : run step s ls₁ = some s') :
    run step s (ls₁ ++ ls₂) = run step s' ls₂ := by
  induction ls₁ generalizing s with
  | nil => rw [run_nil] at h; rw [Option.some.inj h]; rfl
  | cons l ls ih =>
      obtain ⟨s₁, hs, hr⟩ := run_cons_eq_some h
      rw [List.cons_append, run_cons hs, ih hr]

/-- Splitting a run at any point. -/
theorem run_append_eq_some {ls₁ ls₂ : List ℓ} {s t : σ} (h : run step s (ls₁ ++ ls₂) = some t) :
    ∃ s', run step s ls₁ = some s' ∧ run step s' ls₂ = some t := by
  induction ls₁ generalizing s with
  | nil => exact ⟨s, rfl, h⟩
  | cons l ls ih =>
      obtain ⟨s₁, hs, hr⟩ := run_cons_eq_some h
      obtain ⟨s', h1, h2⟩ := ih hr
      exact ⟨s', by rw [run_cons hs]; exact h1, h2⟩

theorem along_cons {P : σ → ℓ → Prop} {s s' : σ} {l : ℓ} {ls : List ℓ} (hs : step s l = some s') :
    Along step P s (l :: ls) ↔ P s l ∧ Along step P s' ls := by
  rw [Along, hs]

/-- What holds of all labels holds of every step. -/
theorem along_of_forall {P : ℓ → Prop} {ls : List ℓ} (h : ∀ l ∈ ls, P l) (s : σ) :
    Along step (fun _ l => P l) s ls := by
  induction ls generalizing s with
  | nil => trivial
  | cons l ls ih =>
      refine ⟨h l (List.mem_cons_self ..), ?_⟩
      cases step s l with
      | none => trivial
      | some s' => exact ih (fun l' hl' => h l' (List.mem_cons_of_mem l hl')) s'

/-- What holds along a run holds along its beginning, and along the rest from there. -/
theorem along_append {P : σ → ℓ → Prop} {ls₁ ls₂ : List ℓ} {s s' : σ}
    (h : run step s ls₁ = some s') :
    Along step P s (ls₁ ++ ls₂) ↔ Along step P s ls₁ ∧ Along step P s' ls₂ := by
  induction ls₁ generalizing s with
  | nil => rw [run_nil] at h; rw [Option.some.inj h]; exact (Iff.of_eq (true_and _)).symm
  | cons l ls ih =>
      obtain ⟨s₁, hs, hr⟩ := run_cons_eq_some h
      rw [List.cons_append, along_cons hs, along_cons hs, ih hr, and_assoc]

/-- **An invariant kept by every step holds at the end of every run.** -/
theorem run_inv {I : σ → Prop}
    (hstep : ∀ s l s', I s → step s l = some s' → I s')
    {s t : σ} {ls : List ℓ} (h0 : I s) (hr : run step s ls = some t) : I t := by
  induction ls generalizing s with
  | nil => rw [run_nil] at hr; exact Option.some.inj hr ▸ h0
  | cons l ls ih =>
      obtain ⟨s', hs, hr'⟩ := run_cons_eq_some hr
      exact ih (hstep s l s' h0 hs) hr'

/-- The same for an invariant that only steps meeting `P` keep. -/
theorem run_inv_along {I : σ → Prop} {P : σ → ℓ → Prop}
    (hstep : ∀ s l s', I s → P s l → step s l = some s' → I s')
    {s t : σ} {ls : List ℓ} (h0 : I s) (hP : Along step P s ls)
    (hr : run step s ls = some t) : I t := by
  induction ls generalizing s with
  | nil => rw [run_nil] at hr; exact Option.some.inj hr ▸ h0
  | cons l ls ih =>
      obtain ⟨s', hs, hr'⟩ := run_cons_eq_some hr
      obtain ⟨hl, hrest⟩ := (along_cons hs).mp hP
      exact ih (hstep s l s' h0 hl hs) hrest hr'

/-- **Where an invariant turns one property of a step into another, every run does.** -/
theorem along_mono {I : σ → Prop} {P Q : σ → ℓ → Prop}
    (hstep : ∀ s l s', I s → P s l → step s l = some s' → I s')
    (hPQ : ∀ s l, I s → P s l → Q s l)
    {s : σ} {ls : List ℓ} (h0 : I s) (hP : Along step P s ls) : Along step Q s ls := by
  induction ls generalizing s with
  | nil => trivial
  | cons l ls ih =>
      rw [Along] at hP ⊢
      refine ⟨hPQ s l h0 hP.1, ?_⟩
      cases hs : step s l with
      | none => trivial
      | some s' =>
          rw [hs] at hP
          exact ih (hstep s l s' h0 hP.1 hs) hP.2

/-- **Where an invariant makes two properties of a step one, they are one of runs.** The invariant
need only be kept by steps that have the property. -/
theorem along_congr {I : σ → Prop} {P Q : σ → ℓ → Prop}
    (hstep : ∀ s l s', I s → P s l → step s l = some s' → I s')
    (hPQ : ∀ s l, I s → (P s l ↔ Q s l)) {s : σ} (h0 : I s) (ls : List ℓ) :
    Along step P s ls ↔ Along step Q s ls := by
  constructor
  · exact along_mono hstep (fun s l hs hl => (hPQ s l hs).mp hl) h0
  · exact along_mono (fun s l s' hs hl => hstep s l s' hs ((hPQ s l hs).mpr hl))
      (fun s l hs hl => (hPQ s l hs).mpr hl) h0

/-- **What holds in every state that is reached**, when from a state where it holds each step keeps
it exactly if it meets a condition. An invariant may be leaned on; and unless the labels are all
enabled, the condition must say nothing of steps that are not taken. -/
theorem along_iff_forall_reached {I Good : σ → Prop} {P : σ → ℓ → Prop}
    (hinv : ∀ s l s', I s → step s l = some s' → I s')
    (hstep : ∀ s l s', I s → Good s → step s l = some s' → (Good s' ↔ P s l))
    {s : σ} {ls : List ℓ} (hstuck : run step s ls = none → ∀ s l, step s l = none → P s l)
    (hI : I s) (h0 : Good s) :
    Along step P s ls ↔ ∀ ls₁ s₁, ls₁ <+: ls → run step s ls₁ = some s₁ → Good s₁ := by
  induction ls generalizing s with
  | nil =>
      refine iff_of_true trivial fun ls₁ s₁ hp hr₁ => ?_
      rw [List.prefix_nil.mp hp, run_nil] at hr₁
      exact Option.some.inj hr₁ ▸ h0
  | cons l ls ih =>
      cases hs : step s l with
      | none =>
          -- nothing but the beginning is reached
          rw [Along, hs]
          refine iff_of_true ⟨hstuck (by rw [run, hs]) s l hs, trivial⟩ fun ls₁ s₁ hp hr₁ => ?_
          cases ls₁ with
          | nil => rw [run_nil] at hr₁; exact Option.some.inj hr₁ ▸ h0
          | cons l₁ ls₁ =>
              obtain ⟨rfl, -⟩ := List.cons_prefix_cons.mp hp
              rw [run, hs] at hr₁
              cases hr₁
      | some s' =>
          rw [along_cons hs]
          have hrest : Good s' → (Along step P s' ls ↔
              ∀ ls₁ s₁, ls₁ <+: ls → run step s' ls₁ = some s₁ → Good s₁) :=
            ih (fun hnone => hstuck ((run_cons hs ls).trans hnone)) (hinv s l s' hI hs)
          constructor
          · rintro ⟨hl, hall⟩ ls₁ s₁ hp hr₁
            cases ls₁ with
            | nil => rw [run_nil] at hr₁; exact Option.some.inj hr₁ ▸ h0
            | cons l₁ ls₁ =>
                obtain ⟨rfl, hp'⟩ := List.cons_prefix_cons.mp hp
                rw [run_cons hs] at hr₁
                exact (hrest ((hstep s l₁ s' hI h0 hs).mpr hl)).mp hall ls₁ s₁ hp' hr₁
          · intro hall
            have hgood : Good s' := hall [l] s' (by simp) (by rw [run_cons hs]; rfl)
            refine ⟨(hstep s l s' hI h0 hs).mp hgood, (hrest hgood).mpr fun ls₁ s₁ hp hr₁ => ?_⟩
            exact hall (l :: ls₁) s₁ (List.cons_prefix_cons.mpr ⟨rfl, hp⟩) (by rw [run_cons hs, hr₁])

/-- The same for the states of a run. -/
theorem forall_reached_iff {Good : σ → Prop} {P : σ → ℓ → Prop}
    (hstep : ∀ s l s', Good s → step s l = some s' → (Good s' ↔ P s l))
    {s t : σ} {ls : List ℓ} (h0 : Good s) (hr : run step s ls = some t) :
    (∀ ls₁ s₁, ls₁ <+: ls → run step s ls₁ = some s₁ → Good s₁) ↔ Along step P s ls :=
  (along_iff_forall_reached (I := fun _ => True) (fun _ _ _ _ _ => trivial)
    (fun s l s' _ => hstep s l s') (fun hnone => absurd (hr.symm.trans hnone) (by simp)) trivial
    h0).symm

/-- A run that breaks a condition breaks it at some step. -/
theorem exists_of_not_along {P : σ → ℓ → Prop} {s t : σ} {ls : List ℓ}
    (hr : run step s ls = some t) (h : ¬ Along step P s ls) :
    ∃ ls₁ l ls₂ s₁, ls = ls₁ ++ l :: ls₂ ∧ run step s ls₁ = some s₁ ∧ ¬ P s₁ l := by
  induction ls generalizing s with
  | nil => exact absurd trivial h
  | cons l ls ih =>
      obtain ⟨s', hs, hr'⟩ := run_cons_eq_some hr
      rw [along_cons hs] at h
      by_cases hl : P s l
      · obtain ⟨ls₁, l', ls₂, s₁, rfl, h1, h2⟩ := ih hr' (fun hrest => h ⟨hl, hrest⟩)
        exact ⟨l :: ls₁, l', ls₂, s₁, rfl, by rw [run_cons hs]; exact h1, h2⟩
      · exact ⟨[], l, ls, s, rfl, rfl, hl⟩

/-- **A forward simulation carries over to runs**: if each step of one system is followed by some
steps of another, none included, that restore the relation, so is each run. -/
theorem run_simulate {τ κ : Type} {step' : τ → κ → Option τ} {R : σ → τ → Prop}
    (hsim : ∀ s l s' t, R s t → step s l = some s' → ∃ ks t', run step' t ks = some t' ∧ R s' t')
    {s s' : σ} {t : τ} {ls : List ℓ} (h : R s t) (hr : run step s ls = some s') :
    ∃ ks t', run step' t ks = some t' ∧ R s' t' := by
  induction ls generalizing s t with
  | nil => rw [run_nil] at hr; exact ⟨[], t, rfl, Option.some.inj hr ▸ h⟩
  | cons l ls ih =>
      obtain ⟨s₁, hs, hr₁⟩ := run_cons_eq_some hr
      obtain ⟨ks₁, t₁, hk₁, h₁⟩ := hsim s l s₁ t h hs
      obtain ⟨ks₂, t₂, hk₂, h₂⟩ := ih h₁ hr₁
      exact ⟨ks₁ ++ ks₂, t₂, by rw [run_append hk₁]; exact hk₂, h₂⟩

/-! ## What a run amounts to -/

section Effects

variable {κ : Type} {eff : σ → ℓ → List κ}

/-- What the steps of a run amount to, one after another. -/
def effects (step : σ → ℓ → Option σ) (eff : σ → ℓ → List κ) : σ → List ℓ → List κ
  | _, [] => []
  | s, l :: ls => eff s l ++
    match step s l with
    | none => []
    | some s' => effects step eff s' ls

theorem effects_cons {s s' : σ} {l : ℓ} (h : step s l = some s') (ls : List ℓ) :
    effects step eff s (l :: ls) = eff s l ++ effects step eff s' ls := by
  rw [effects, h]

theorem effects_append {ls₁ ls₂ : List ℓ} {s s' : σ} (h : run step s ls₁ = some s') :
    effects step eff s (ls₁ ++ ls₂) = effects step eff s ls₁ ++ effects step eff s' ls₂ := by
  induction ls₁ generalizing s with
  | nil => rw [run_nil] at h; rw [Option.some.inj h]; rfl
  | cons l ls ih =>
      obtain ⟨s₁, hs, hr⟩ := run_cons_eq_some h
      rw [List.cons_append, effects_cons hs, effects_cons hs, ih hr, List.append_assoc]

/-- **An invariant of states and what led to them**, kept by every step that meets `P`. -/
theorem effects_inv_along {I : σ → List κ → Prop} {P : σ → ℓ → Prop}
    (hstep : ∀ s l s' es, I s es → P s l → step s l = some s' → I s' (es ++ eff s l))
    {s t : σ} {es : List κ} {ls : List ℓ} (h0 : I s es) (hP : Along step P s ls)
    (hr : run step s ls = some t) : I t (es ++ effects step eff s ls) := by
  induction ls generalizing s es with
  | nil =>
      rw [run_nil] at hr
      rw [effects, List.append_nil, ← Option.some.inj hr]
      exact h0
  | cons l ls ih =>
      obtain ⟨s', hs, hr'⟩ := run_cons_eq_some hr
      obtain ⟨hl, hrest⟩ := (along_cons hs).mp hP
      rw [effects_cons hs, ← List.append_assoc]
      exact ih (hstep s l s' es h0 hl hs) hrest hr'

end Effects

/-! ## Runs that are remembered -/

section Recording

/-- The same steps from states that remember the steps taken to them, newest first, each with the
state it was taken from. -/
def recording (step : σ → ℓ → Option σ) (s : σ × List (σ × ℓ)) (l : ℓ) :
    Option (σ × List (σ × ℓ)) :=
  (step s.1 l).map fun s' => (s', (s.1, l) :: s.2)

theorem recording_eq_some {s s' : σ × List (σ × ℓ)} {l : ℓ} :
    recording step s l = some s' ↔ ∃ t, step s.1 l = some t ∧ s' = (t, (s.1, l) :: s.2) := by
  rw [recording, Option.map_eq_some_iff]
  exact exists_congr fun t => and_congr_right fun _ => eq_comm

/-- What is remembered are the labels. -/
theorem labels_of_recording {s t : σ} {past past' : List (σ × ℓ)} {ls : List ℓ}
    (h : run (recording step) (s, past) ls = some (t, past')) :
    past'.map Prod.snd = ls.reverse ++ past.map Prod.snd := by
  induction ls generalizing s past with
  | nil =>
      rw [run_nil] at h
      obtain ⟨-, rfl⟩ := Prod.mk.inj (Option.some.inj h)
      rfl
  | cons l ls ih =>
      obtain ⟨s₁, hs, hr⟩ := run_cons_eq_some h
      obtain ⟨t₁, -, rfl⟩ := recording_eq_some.mp hs
      rw [ih hr, List.reverse_cons, List.append_assoc]
      rfl

/-- **Remembering changes nothing.** -/
theorem exists_run_recording {s t : σ} {past : List (σ × ℓ)} {ls : List ℓ} :
    (∃ past', run (recording step) (s, past) ls = some (t, past')) ↔ run step s ls = some t := by
  induction ls generalizing s past with
  | nil => simp
  | cons l ls ih =>
      cases hs : step s l with
      | none =>
          have hrec : recording step (s, past) l = none := by rw [recording, hs, Option.map_none]
          rw [run, run, hs, hrec]
          simp
      | some s' =>
          have hrec : recording step (s, past) l = some (s', (s, l) :: past) :=
            recording_eq_some.mpr ⟨s', hs, rfl⟩
          rw [run_cons hs, ← @ih s' ((s, l) :: past)]
          exact exists_congr fun past' => by rw [run_cons hrec]

end Recording

/-! ## What a run showed last -/

section LastSeen

variable {α : Type} {obs : σ → Option α}

/-- `a` is what the states of a run showed last: some state shows it, and no later one shows
anything. -/
def LastSeen (step : σ → ℓ → Option σ) (obs : σ → Option α) (s : σ) (ls : List ℓ) (a : α) : Prop :=
  ∃ ls₁ s₁, ls₁ <+: ls ∧ run step s ls₁ = some s₁ ∧ obs s₁ = some a ∧
    ∀ ls₂ s₂, ls₂ <+: ls → ls₁.length < ls₂.length → run step s ls₂ = some s₂ → obs s₂ = none

theorem lastSeen_nil {s : σ} {a : α} : LastSeen step obs s [] a ↔ obs s = some a := by
  refine ⟨fun ⟨ls₁, s₁, hp, hr, ha, _⟩ => ?_, fun ha => ⟨[], s, List.prefix_rfl, rfl, ha, ?_⟩⟩
  · rw [List.prefix_nil.mp hp, run_nil] at hr
    exact Option.some.inj hr ▸ ha
  · intro ls₂ s₂ hp hlt
    rw [List.prefix_nil.mp hp] at hlt
    exact absurd hlt (Nat.lt_irrefl 0)

/-- One step more shows something new, or leaves what was shown last. -/
theorem lastSeen_concat {s t : σ} {ls : List ℓ} {l : ℓ} {a : α}
    (hr : run step s (ls ++ [l]) = some t) :
    LastSeen step obs s (ls ++ [l]) a
      ↔ obs t = some a ∨ (obs t = none ∧ LastSeen step obs s ls a) := by
  constructor
  · rintro ⟨ls₁, s₁, hp, hr₁, ha, hlater⟩
    rcases List.prefix_concat_iff.mp hp with rfl | hp
    · rw [hr₁] at hr
      exact Or.inl (Option.some.inj hr ▸ ha)
    · have hlt : ls₁.length < (ls ++ [l]).length := by
        rw [List.length_append]
        exact Nat.lt_succ_of_le hp.length_le
      refine Or.inr ⟨hlater _ t List.prefix_rfl hlt hr, ls₁, s₁, hp, hr₁, ha, ?_⟩
      exact fun ls₂ s₂ hp₂ => hlater ls₂ s₂ (hp₂.trans (List.prefix_append ..))
  · rintro (ha | ⟨hnone, ls₁, s₁, hp, hr₁, ha, hlater⟩)
    · refine ⟨ls ++ [l], t, List.prefix_rfl, hr, ha, fun ls₂ s₂ hp₂ hlt => ?_⟩
      exact absurd hp₂.length_le (Nat.not_le_of_lt hlt)
    · refine ⟨ls₁, s₁, hp.trans (List.prefix_append ..), hr₁, ha, fun ls₂ s₂ hp₂ hlt hr₂ => ?_⟩
      rcases List.prefix_concat_iff.mp hp₂ with rfl | hp₂
      · rw [hr₂] at hr
        exact Option.some.inj hr ▸ hnone
      · exact hlater ls₂ s₂ hp₂ hlt hr₂

/-- A run that shows something in some state shows something last. -/
theorem exists_lastSeen {s t : σ} {ls : List ℓ} (hr : run step s ls = some t) :
    (∃ a, LastSeen step obs s ls a)
      ↔ ∃ ls₁ s₁, ls₁ <+: ls ∧ run step s ls₁ = some s₁ ∧ (obs s₁).isSome := by
  constructor
  · rintro ⟨a, ls₁, s₁, hp, hr₁, ha, -⟩
    exact ⟨ls₁, s₁, hp, hr₁, Option.isSome_of_eq_some ha⟩
  · rintro ⟨ls₁, s₁, hp, hr₁, hsome⟩
    induction ls using List.reverseRecOn generalizing t with
    | nil =>
        obtain ⟨a, ha⟩ := Option.isSome_iff_exists.mp hsome
        rw [List.prefix_nil.mp hp, run_nil] at hr₁
        exact ⟨a, lastSeen_nil.mpr (Option.some.inj hr₁ ▸ ha)⟩
    | append_singleton ls l ih =>
        cases hobs : obs t with
        | some a => exact ⟨a, (lastSeen_concat hr).mpr (Or.inl hobs)⟩
        | none =>
            obtain ⟨s', hs', -⟩ := run_append_eq_some hr
            rcases List.prefix_concat_iff.mp hp with rfl | hp
            · rw [hr] at hr₁
              rw [← Option.some.inj hr₁, hobs] at hsome
              cases hsome
            · obtain ⟨a, ha⟩ := ih hs' hp
              exact ⟨a, (lastSeen_concat hr).mpr (Or.inr ⟨hobs, ha⟩)⟩

/-- What the last state shows is shown last. -/
theorem lastSeen_of_obs {s t : σ} {ls : List ℓ} {a : α} (hr : run step s ls = some t)
    (ha : obs t = some a) : LastSeen step obs s ls a :=
  ⟨ls, t, List.prefix_rfl, hr, ha,
    fun _ _ hp hlt _ => absurd hp.length_le (Nat.not_le_of_lt hlt)⟩

end LastSeen

end Kubpf.Lib
