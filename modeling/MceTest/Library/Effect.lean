/-! Programs with a state and an early end, and what they keep. -/

namespace MceTest.Library.Effect

variable {ε σ α β : Type}

@[ext] structure Prog (ε σ α : Type) where
  run : σ → Except ε α × σ

namespace Prog

def bind (p : Prog ε σ α) (f : α → Prog ε σ β) : Prog ε σ β where
  run s :=
    match p.run s with
    | (.ok a, s') => (f a).run s'
    | (.error e, s') => (.error e, s')

instance : Monad (Prog ε σ) where
  pure a := ⟨fun s => (.ok a, s)⟩
  bind := bind

def get : Prog ε σ σ := ⟨fun s => (.ok s, s)⟩

def modify (f : σ → σ) : Prog ε σ Unit := ⟨fun s => (.ok (), f s)⟩

def throw (e : ε) : Prog ε σ α := ⟨fun s => (.error e, s)⟩

/-- An `if` without an `else`. -/
def when (c : Prop) [Decidable c] (p : Prog ε σ Unit) : Prog ε σ Unit :=
  if c then p else pure ()

@[simp] theorem run_pure (a : α) (s : σ) : (pure a : Prog ε σ α).run s = (.ok a, s) := rfl

@[simp] theorem run_get (s : σ) : (get : Prog ε σ σ).run s = (.ok s, s) := rfl

@[simp] theorem run_modify (f : σ → σ) (s : σ) :
    (modify f : Prog ε σ Unit).run s = (.ok (), f s) := rfl

@[simp] theorem run_throw (e : ε) (s : σ) :
    (throw e : Prog ε σ α).run s = (.error e, s) := rfl

theorem run_bind_ok {p : Prog ε σ α} {f : α → Prog ε σ β} {s s' : σ} {a : α}
    (h : p.run s = (.ok a, s')) : (p >>= f).run s = (f a).run s' := by
  change (bind p f).run s = _
  simp only [bind, h]

theorem run_bind_error {p : Prog ε σ α} {f : α → Prog ε σ β} {s s' : σ} {e : ε}
    (h : p.run s = (.error e, s')) : (p >>= f).run s = (.error e, s') := by
  change (bind p f).run s = _
  simp only [bind, h]

@[simp] theorem run_get_bind (f : σ → Prog ε σ β) (s : σ) :
    (get >>= f).run s = (f s).run s := run_bind_ok rfl

@[simp] theorem run_modify_bind (g : σ → σ) (f : Unit → Prog ε σ β) (s : σ) :
    (modify g >>= f).run s = (f ()).run (g s) := run_bind_ok rfl

@[simp] theorem run_throw_bind (e : ε) (f : α → Prog ε σ β) (s : σ) :
    (throw e >>= f).run s = (.error e, s) := run_bind_error rfl

theorem when_pos {c : Prop} [Decidable c] (h : c) (p : Prog ε σ Unit) : when c p = p := if_pos h

theorem when_neg {c : Prop} [Decidable c] (h : ¬ c) (p : Prog ε σ Unit) :
    when c p = pure () := if_neg h

end Prog

/-- From a state of `I` the program goes on in a state of `J`, or ends as `F` says. -/
structure Leads (I J : σ → Prop) (F : ε → σ → Prop) (p : Prog ε σ α) : Prop where
  ok : ∀ {s s' a}, I s → p.run s = (.ok a, s') → J s'
  error : ∀ {s s' e}, I s → p.run s = (.error e, s') → F e s'

/-- The program stays in `I` until it ends. -/
abbrev Keeps (I : σ → Prop) (F : ε → σ → Prop) (p : Prog ε σ α) : Prop := Leads I I F p

variable {I J K : σ → Prop} {F : ε → σ → Prop}

theorem Leads.pure (a : α) : Keeps I F (Pure.pure a : Prog ε σ α) where
  ok := by
    rintro s s' a hs ⟨⟩
    exact hs
  error := by rintro s s' e hs ⟨⟩

theorem Leads.of_error {p : Prog ε σ α}
    (h : ∀ s, I s → ∃ e s', p.run s = (.error e, s') ∧ F e s') : Leads I J F p where
  ok := by
    intro s s' a hs hrun
    obtain ⟨e, t, herr, -⟩ := h s hs
    rw [herr] at hrun
    cases hrun
  error := by
    intro s s' e hs hrun
    obtain ⟨e', t, herr, he⟩ := h s hs
    rw [herr] at hrun
    cases hrun
    exact he

theorem Leads.of_ok {p : Prog ε σ α} (h : ∀ s, I s → ∃ a s', p.run s = (.ok a, s') ∧ J s') :
    Leads I J F p where
  ok := by
    intro s s' a hs hrun
    obtain ⟨a', t, hok, ht⟩ := h s hs
    rw [hok] at hrun
    cases hrun
    exact ht
  error := by
    intro s s' e hs hrun
    obtain ⟨a', t, hok, -⟩ := h s hs
    rw [hok] at hrun
    cases hrun

theorem Leads.weaken {p : Prog ε σ α} (hp : Leads I J F p) (h : ∀ s, K s → I s) :
    Leads K J F p where
  ok := fun hs hrun => hp.ok (h _ hs) hrun
  error := fun hs hrun => hp.error (h _ hs) hrun

theorem Leads.of_run {p q : Prog ε σ α} (h : ∀ s, I s → ∃ t, p.run s = q.run t ∧ K t)
    (hq : Leads K J F q) : Leads I J F p where
  ok := by
    intro s s' a hs hrun
    obtain ⟨t, heq, ht⟩ := h s hs
    exact hq.ok ht (heq ▸ hrun)
  error := by
    intro s s' e hs hrun
    obtain ⟨t, heq, ht⟩ := h s hs
    exact hq.error ht (heq ▸ hrun)

theorem Leads.get : Keeps I F (Prog.get : Prog ε σ σ) where
  ok := by
    rintro s s' a hs ⟨⟩
    exact hs
  error := by rintro s s' e hs ⟨⟩

theorem Leads.modify {f : σ → σ} (h : ∀ s, I s → J (f s)) :
    Leads I J F (Prog.modify f : Prog ε σ Unit) where
  ok := by
    rintro s s' a hs ⟨⟩
    exact h s hs
  error := by rintro s s' e hs ⟨⟩

theorem Leads.throw {e : ε} (h : ∀ s, I s → F e s) : Leads I J F (Prog.throw e : Prog ε σ α) where
  ok := by rintro s s' a hs ⟨⟩
  error := by
    rintro s s' e hs ⟨⟩
    exact h s hs

theorem Leads.bind {p : Prog ε σ α} {f : α → Prog ε σ β} (hp : Leads I J F p)
    (hf : ∀ a, Leads J K F (f a)) : Leads I K F (p >>= f) where
  ok := by
    intro s s' b hs hrun
    cases hp' : p.run s with
    | mk r t =>
      cases r with
      | ok a =>
        rw [Prog.run_bind_ok hp'] at hrun
        exact (hf a).ok (hp.ok hs hp') hrun
      | error e =>
        rw [Prog.run_bind_error hp'] at hrun
        cases hrun
  error := by
    intro s s' e hs hrun
    cases hp' : p.run s with
    | mk r t =>
      cases r with
      | ok a =>
        rw [Prog.run_bind_ok hp'] at hrun
        exact (hf a).error (hp.ok hs hp') hrun
      | error e' =>
        rw [Prog.run_bind_error hp'] at hrun
        cases hrun
        exact hp.error hs hp'

theorem Leads.at_state {p : Prog ε σ α} (h : ∀ s, I s → Leads (Eq s) J F p) : Leads I J F p where
  ok := fun hs hrun => (h _ hs).ok rfl hrun
  error := fun hs hrun => (h _ hs).error rfl hrun

/-- What comes after the state has been read may use that it is the state. -/
theorem Leads.get_bind {f : σ → Prog ε σ β} (h : ∀ s, I s → Leads (Eq s) J F (f s)) :
    Leads I J F (Prog.get >>= f) where
  ok := fun hs hrun => (h _ hs).ok rfl hrun
  error := fun hs hrun => (h _ hs).error rfl hrun

theorem Leads.when {c : Prop} [Decidable c] {p : Prog ε σ Unit} (hp : c → Keeps I F p) :
    Keeps I F (Prog.when c p) := by
  unfold Prog.when
  split
  · exact hp ‹_›
  · exact Leads.pure ()

theorem Leads.ite {c : Prop} [Decidable c] {p q : Prog ε σ α} (hp : c → Leads I J F p)
    (hq : ¬ c → Leads I J F q) : Leads I J F (if c then p else q) := by
  split
  · exact hp ‹_›
  · exact hq ‹_›

end MceTest.Library.Effect
