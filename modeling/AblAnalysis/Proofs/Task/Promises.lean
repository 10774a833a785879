import AblAnalysis.Proofs.Task.Interleaving
import AblAnalysis.Proofs.Storage.Retries

/-!
Tasks with others beside them. A task relies on what the others do between its steps and promises something
of each step of its own (`Task.Fulfils`). What holds before a task leads to what holds after it
(`Task.Brings`): this is known of single operations, and from there along sequences and repetitions.
-/

namespace AblAnalysis.Task

variable {σ τ α β : Type} {rely guarantee : σ → σ → Prop} {s s' s'' : σ} {a : α}

/-! ### All steps -/

/-- Whether every step of a task, whatever it finds, is in a relation. -/
def Always (relation : σ → σ → Prop) : Task σ α → Prop
  | .done _ => True
  | .step act next => ∀ s, relation s (act s) ∧ (next s).Always relation

theorem always_pure (relation : σ → σ → Prop) (a : α) : (pure a : Task σ α).Always relation :=
  trivial

theorem Always.bind {relation : σ → σ → Prop} {t : Task σ α} {f : α → Task σ β}
    (h : t.Always relation) (hnext : ∀ a, (f a).Always relation) : (t >>= f).Always relation := by
  induction t with
  | done a => exact hnext a
  | step act next ih => exact fun s => ⟨(h s).1, ih s (h s).2⟩

theorem Always.mono {relation relation' : σ → σ → Prop} {t : Task σ α} (h : t.Always relation)
    (himp : ∀ s s', relation s s' → relation' s s') : t.Always relation' := by
  induction t with
  | done a => trivial
  | step act next ih => exact fun s => ⟨himp _ _ (h s).1, ih s (h s).2⟩

theorem Always.and {relation relation' : σ → σ → Prop} {t : Task σ α} (h : t.Always relation)
    (h' : t.Always relation') : t.Always fun s s' => relation s s' ∧ relation' s s' := by
  induction t with
  | done a => trivial
  | step act next ih => exact fun s => ⟨⟨(h s).1, (h' s).1⟩, ih s (h s).2 (h' s).2⟩

/-! ### Promises -/

/-- Whether a property stays through the steps of others. -/
def Stable (rely : σ → σ → Prop) (P : σ → Prop) : Prop :=
  ∀ s s', P s → rely s s' → P s'

/-- Whether a task, with steps of others in `rely` before each of its own, takes only steps in `guarantee` and
ends with an answer and a state that fit together. -/
def Fulfils (rely guarantee : σ → σ → Prop) (post : α → σ → Prop) : Task σ α → σ → Prop
  | .done a, s => post a s
  | .step act next, s => ∀ s', rely s s' →
      guarantee s' (act s') ∧ (next s').Fulfils rely guarantee post (act s')

theorem Fulfils.of_rely {post : α → σ → Prop} {t : Task σ α}
    (h : t.Fulfils rely guarantee post s) (hrely : rely s s')
    (htrans : ∀ s s' s'', rely s s' → rely s' s'' → rely s s'')
    (hstable : ∀ a, Stable rely (post a)) : t.Fulfils rely guarantee post s' := by
  cases t with
  | done a => exact hstable a s s' h hrely
  | step act next => exact fun s'' hrely' => h s'' (htrans s s' s'' hrely hrely')

/-- Whether a task leads from one property of the state to another, which may hang on the answer. -/
def Brings (rely guarantee : σ → σ → Prop) (P : σ → Prop) (t : Task σ α) (Q : α → σ → Prop) : Prop :=
  ∀ s, P s → t.Fulfils rely guarantee Q s

namespace Brings

variable {P P' : σ → Prop} {Q : β → σ → Prop} {R R' : α → σ → Prop} {t : Task σ α}

theorem pure {b : β} (h : ∀ s, P s → Q b s) : Brings rely guarantee P (pure b) Q :=
  h

theorem bind {f : α → Task σ β} (h : Brings rely guarantee P t R)
    (hnext : ∀ a, Brings rely guarantee (R a) (f a) Q) : Brings rely guarantee P (t >>= f) Q := by
  intro s hs
  have hfulfils := h s hs
  clear h hs
  induction t generalizing s with
  | done a => exact hnext a s hfulfils
  | step act next ih =>
    intro s' hrely
    obtain ⟨hguarantee, hrest⟩ := hfulfils s' hrely
    exact ⟨hguarantee, ih s' _ hrest⟩

theorem weaken (h : Brings rely guarantee P t R) (hpre : ∀ s, P' s → P s)
    (hpost : ∀ a s, R a s → R' a s) : Brings rely guarantee P' t R' := by
  intro s hs
  have hfulfils := h s (hpre s hs)
  clear h hs
  induction t generalizing s with
  | done a => exact hpost a s hfulfils
  | step act next ih =>
    intro s' hrely
    obtain ⟨hguarantee, hrest⟩ := hfulfils s' hrely
    exact ⟨hguarantee, ih s' _ hrest⟩

/-- An operation is known by its answer and the state after it. -/
theorem once {operation : σ → α × σ} (hstable : Stable rely P)
    (h : ∀ s a s', P s → operation s = (a, s') → guarantee s s' ∧ R a s') :
    Brings rely guarantee P (.once operation) R :=
  fun s hs s' hrely => h s' _ _ (hstable s s' hs hrely) rfl

theorem look {view : σ → α} (hstable : Stable rely P) (hrefl : ∀ s, guarantee s s)
    (h : ∀ s, P s → R (view s) s) : Brings rely guarantee P (.look view) R :=
  once hstable fun s a s' hs heq => by
    obtain ⟨rfl, rfl⟩ := Prod.mk.inj heq
    exact ⟨hrefl s, h s hs⟩

/-- What every step of a task keeps, the task keeps. -/
theorem of_always {relation : σ → σ → Prop} (halways : t.Always relation)
    (hguarantee : ∀ s s', P s → relation s s' → guarantee s s' ∧ P s') (hstable : Stable rely P) :
    Brings rely guarantee P t fun a s => P s ∧ CanGive a t := by
  intro s hs
  induction t generalizing s with
  | done a => exact ⟨hs, .done⟩
  | step act next ih =>
    intro s' hrely
    have hs' := hstable s s' hs hrely
    obtain ⟨hstep, hrest⟩ := halways s'
    obtain ⟨hguarantee', hpost⟩ := hguarantee _ _ hs' hstep
    refine ⟨hguarantee', ?_⟩
    exact weaken (P := P) (fun s hs => ih s' hrest s hs) (fun _ h => h)
      (fun a s h => ⟨h.1, .step s' h.2⟩) _ hpost

/-- An operation that leaves everything in order when it fails can be repeated. -/
theorem retryFrom {pause : Task σ Unit} {operation : Task σ (Except Error α)}
    {S : Except Error α → σ → Prop} (h : Brings rely guarantee P operation S)
    (hpause : Brings rely guarantee P pause fun _ => P) (herror : ∀ e s, S (.error e) s → P s)
    (limit attempt : UInt32) :
    Brings rely guarantee P (AblAnalysis.retryFrom (fun _ => pause) operation limit attempt) S := by
  rw [retryFrom_eq_retry]
  induction limit.toNat - attempt.toNat with
  | zero => exact h
  | succ retries ih =>
    rw [retry]
    refine h.bind fun result => ?_
    split
    · rename_i text
      exact (hpause.bind fun _ => ih).weaken (herror _) fun _ _ h => h
    · exact .pure fun s hs => hs

/-- A task on a part of the state leaves the rest as it is. -/
theorem onFirst {rely' guarantee' : σ × τ → σ × τ → Prop} (h : Brings rely guarantee P t R)
    (hrely : ∀ s s', rely' s s' → rely s.1 s'.1)
    (hguarantee : ∀ s s', guarantee s.1 s'.1 → s'.2 = s.2 → guarantee' s s') :
    Brings rely' guarantee' (fun s => P s.1) t.onFirst fun a s => R a s.1 := by
  intro s hs
  have hfulfils := h s.1 hs
  clear h hs
  induction t generalizing s with
  | done a => exact hfulfils
  | step act next ih =>
    intro s' hrely'
    obtain ⟨hstep, hrest⟩ := hfulfils s'.1 (hrely s s' hrely')
    exact ⟨hguarantee _ _ hstep rfl, ih s'.1 _ hrest⟩

end Brings

end AblAnalysis.Task
