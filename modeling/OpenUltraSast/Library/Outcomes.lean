import OpenUltraSast.Library.Collections

/-!
# Outcomes

What a computation that may raise ends with: a result with one property, or an error with another.
-/

namespace Outcomes

variable {ε α β : Type} {P : α → Prop} {Q : β → Prop} {E : ε → Prop}

def Yields (P : α → Prop) (E : ε → Prop) : Except ε α → Prop
  | .ok a => P a
  | .error e => E e

theorem yields_pure {a : α} (holds : P a) : Yields P E (pure a : Except ε α) := holds

variable {x : Except ε α} {f : α → Except ε β}

theorem yields_bind (first : Yields P E x)
    (rest : ∀ a, P a → Yields Q E (f a)) : Yields Q E (x >>= f) := by
  cases x with
  | error e => exact first
  | ok a => exact rest a first

/-- The rule of consequence. -/
theorem Yields.mono {P' : α → Prop} {E' : ε → Prop} (yields : Yields P E x)
    (result : ∀ a, P a → P' a) (error : ∀ e, E e → E' e) : Yields P' E' x := by
  cases x with
  | error e => exact error e yields
  | ok a => exact result a yields

theorem yields_ok {a : α} (yields : Yields P E x) (returned : x = .ok a) : P a := by
  subst returned
  exact yields

theorem yields_error {e : ε} (yields : Yields P E x) (raised : x = .error e) : E e := by
  subst raised
  exact yields

theorem yields_mapM {R : α → β → Prop} {l : List α}
    (each : ∀ a ∈ l, Yields (R a) E (f a)) : Yields (List.Forall₂ R l) E (l.mapM f) := by
  induction l with
  | nil => exact .nil
  | cons a l ih =>
    rw [List.forall_mem_cons] at each
    rw [List.mapM_cons]
    refine yields_bind each.1 fun b first => ?_
    exact yields_bind (ih each.2) fun m rest => yields_pure (.cons first rest)

theorem yields_foldlM {f : α → β → Except ε α} {l : List β} {a : α} (start : P a)
    (each : ∀ b ∈ l, ∀ a, P a → Yields P E (f a b)) : Yields P E (l.foldlM f a) := by
  induction l generalizing a with
  | nil => exact yields_pure start
  | cons b l ih =>
    rw [List.forall_mem_cons] at each
    rw [List.foldlM_cons]
    exact yields_bind (each.1 a start) fun _ next => ih next each.2

end Outcomes

/-!
## Two runs of programs that may fail

Programs that keep a state and may fail, run side by side: from related states both fail, or both end
with related results and states.
-/

namespace TwoRuns

open List

variable {σ ε α α' β β' γ γ' : Type}

/-- What holds of every result of a program. -/
def Returns (Q : α → Prop) (m : StateT σ (Except ε) α) : Prop :=
  ∀ s a t, m.run s = .ok (a, t) → Q a

theorem returns_mapM (f : α → StateT σ (Except ε) β) (l : List α) :
    Returns (fun m => m.length = l.length) (l.mapM f) := by
  induction l with
  | nil =>
    intro s m t ran
    cases ran
    rfl
  | cons a l ih =>
    intro s m t ran
    rw [mapM_cons, StateT.run_bind] at ran
    cases first : (f a).run s with
    | error => rw [first] at ran; cases ran
    | ok next =>
      rw [first] at ran
      change ((l.mapM f >>= fun rest => pure (next.1 :: rest)).run next.2) = _ at ran
      rw [StateT.run_bind] at ran
      cases rest : (l.mapM f).run next.2 with
      | error => rw [rest] at ran; cases ran
      | ok last =>
        rw [rest] at ran
        cases ran
        exact congrArg (· + 1) (ih _ _ _ rest)

theorem returns_option_mapM (f : α → StateT σ (Except ε) β) (part : Option α) :
    Returns (fun result => result.isSome = part.isSome) (part.mapM f) := by
  cases part with
  | none =>
    intro s a t ran
    cases ran
    rfl
  | some a =>
    intro s result t ran
    change ((f a >>= fun b => pure (some b)).run s) = _ at ran
    rw [StateT.run_bind] at ran
    cases first : (f a).run s with
    | error => rw [first] at ran; cases ran
    | ok next =>
      rw [first] at ran
      cases ran
      rfl

inductive Ends (R : α → α' → Prop) (post : σ → σ → Prop) :
    Except ε (α × σ) → Except ε (α' × σ) → Prop where
  | failed {e e'} : Ends R post (.error e) (.error e')
  | ended {a a' t t'} (result : R a a') (state : post t t') :
    Ends R post (.ok (a, t)) (.ok (a', t'))

/-- From related states, two programs end in a related way. -/
def Paired (pre : σ → σ → Prop) (R : α → α' → Prop) (post : σ → σ → Prop)
    (m : StateT σ (Except ε) α) (m' : StateT σ (Except ε) α') : Prop :=
  ∀ s s', pre s s' → Ends R post (m.run s) (m'.run s')

namespace Paired

variable {pre mid post : σ → σ → Prop} {R : α → α' → Prop} {S : β → β' → Prop}

theorem pure {a : α} {a' : α'} (result : R a a') :
    Paired pre R pre (Pure.pure a : StateT σ (Except ε) α) (Pure.pure a') :=
  fun _ _ related => .ended result related

theorem throw {e e' : ε} :
    Paired pre R post (throw e : StateT σ (Except ε) α) (throw e' : StateT σ (Except ε) α') :=
  fun _ _ _ => .failed

theorem bind {m : StateT σ (Except ε) α} {m' : StateT σ (Except ε) α'}
    {k : α → StateT σ (Except ε) β} {k' : α' → StateT σ (Except ε) β'}
    (first : Paired pre R mid m m') (rest : ∀ a a', R a a' → Paired mid S post (k a) (k' a')) :
    Paired pre S post (m >>= k) (m' >>= k') := by
  intro s s' related
  rw [StateT.run_bind, StateT.run_bind]
  have ends := first s s' related
  generalize m.run s = out at ends ⊢
  generalize m'.run s' = out' at ends ⊢
  cases ends with
  | failed => exact .failed
  | ended result state => exact rest _ _ result _ _ state

theorem modifyGet {f : σ → α × σ} {f' : σ → α' × σ}
    (keeps : ∀ s s', pre s s' → R (f s).1 (f' s').1 ∧ post (f s).2 (f' s').2) :
    Paired pre R post (modifyGet f : StateT σ (Except ε) α) (modifyGet f') :=
  fun s s' related => .ended (keeps s s' related).1 (keeps s s' related).2

theorem foldlM {I : Prop → σ → σ → Prop} {A : Prop → γ → γ' → Prop} {P E : β → β' → Prop}
    {f : γ → β → StateT σ (Except ε) γ} {f' : γ' → β' → StateT σ (Except ε) γ'}
    (step : ∀ b x x' acc acc', P x x' → A b acc acc' →
      Paired (I b) (A (b ∧ E x x')) (I (b ∧ E x x')) (f acc x) (f' acc' x'))
    {l : List β} {l' : List β'} (each : List.Forall₂ P l l') :
    ∀ b acc acc', A b acc acc' →
      Paired (I b) (A (b ∧ List.Forall₂ E l l')) (I (b ∧ List.Forall₂ E l l'))
        (l.foldlM f acc) (l'.foldlM f' acc') := by
  induction each with
  | nil =>
    intro b acc acc' start
    have same : (b ∧ List.Forall₂ E [] []) = b := by simp
    rw [same]
    exact pure start
  | @cons x x' l l' related each ih =>
    intro b acc acc' start
    have same : (b ∧ List.Forall₂ E (x :: l) (x' :: l')) = ((b ∧ E x x') ∧ List.Forall₂ E l l') := by
      rw [forall₂_cons, and_assoc]
    rw [foldlM_cons, foldlM_cons, same]
    exact bind (step b x x' acc acc' related start) fun next next' held => ih _ next next' held

end Paired

/-- Where `m'` fails, `m` fails; where it ends, `m` ends alike or fails, as `d` says. -/
def Guarded (d : Prop) (m m' : StateT σ (Except ε) α) : Prop :=
  ∀ s, (∀ e, m'.run s = .error e → ∃ e', m.run s = .error e') ∧
    ∀ r, m'.run s = .ok r → (d → m.run s = .ok r) ∧ (¬ d → ∃ e', m.run s = .error e')

namespace Guarded

variable {d d' : Prop}

theorem refl (m : StateT σ (Except ε) α) : Guarded True m m :=
  fun _ => ⟨fun e failed => ⟨e, failed⟩, fun _ ended => ⟨fun _ => ended, fun no => (no trivial).elim⟩⟩

variable {m m' : StateT σ (Except ε) α}

theorem congr (guarded : Guarded d m m') (same : d ↔ d') :
    Guarded d' m m' := propext same ▸ guarded

theorem throw {e : ε} {m' : StateT σ (Except ε) α} (never : ¬ d) :
    Guarded d (throw e : StateT σ (Except ε) α) m' :=
  fun _ => ⟨fun _ _ => ⟨e, rfl⟩, fun _ _ => ⟨fun held => (never held).elim, fun _ => ⟨e, rfl⟩⟩⟩

theorem fail {e e' : ε} :
    Guarded d (MonadExcept.throw e : StateT σ (Except ε) α) (MonadExcept.throw e') :=
  fun _ => ⟨fun _ _ => ⟨e, rfl⟩, fun _ ended => by cases ended⟩

variable {k k' : α → StateT σ (Except ε) β}

theorem bind (first : Guarded d m m') (rest : ∀ a, Guarded d' (k a) (k' a)) :
    Guarded (d ∧ d') (m >>= k) (m' >>= k') := by
  intro s
  rw [StateT.run_bind, StateT.run_bind]
  obtain ⟨fails, ends⟩ := first s
  cases other : m'.run s with
  | error e =>
    obtain ⟨e', failed⟩ := fails e other
    rw [failed]
    exact ⟨fun _ _ => ⟨e', rfl⟩, fun r ended => by cases ended⟩
  | ok r =>
    obtain ⟨alike, fails⟩ := ends r other
    obtain ⟨a, t⟩ := r
    by_cases held : d
    · rw [alike held]
      obtain ⟨fails', ends'⟩ := rest a t
      refine ⟨fails', fun r ended => ⟨fun both => (ends' r ended).1 both.2, fun no => ?_⟩⟩
      exact (ends' r ended).2 fun held' => no ⟨held, held'⟩
    · obtain ⟨e', failed⟩ := fails held
      rw [failed]
      exact ⟨fun _ _ => ⟨e', rfl⟩, fun _ _ => ⟨fun both => (held both.1).elim, fun _ => ⟨e', rfl⟩⟩⟩

theorem after_returns {Q : α → Prop} {m : StateT σ (Except ε) α}
    (returns : Returns Q m) (rest : ∀ a, Q a → Guarded d (k a) (k' a)) :
    Guarded d (m >>= k) (m >>= k') := by
  intro s
  rw [StateT.run_bind, StateT.run_bind]
  cases ran : m.run s with
  | error e => exact ⟨fun _ _ => ⟨e, rfl⟩, fun _ ended => by cases ended⟩
  | ok next => exact rest next.1 (returns s next.1 next.2 ran) next.2

theorem foldlM {D : β → Prop} {f f' : γ → β → StateT σ (Except ε) γ} {l : List β}
    (step : ∀ x ∈ l, ∀ acc, Guarded (D x) (f acc x) (f' acc x)) :
    ∀ acc, Guarded (∀ x ∈ l, D x) (l.foldlM f acc) (l.foldlM f' acc) := by
  induction l with
  | nil => exact fun acc => (refl _).congr (by simp)
  | cons x l ih =>
    intro acc
    rw [forall_mem_cons] at step
    rw [foldlM_cons, foldlM_cons]
    refine (bind (step.1 acc) fun next => ih step.2 next).congr ?_
    exact forall_mem_cons.symm

end Guarded

end TwoRuns
