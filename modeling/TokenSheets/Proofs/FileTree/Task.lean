/-
TokenSheets/Proofs/FileTree/Task.lean

What a task makes of a tree.

A task is run by giving it a tree (`Task.on`).  The lemmas here say what each way
of building a task does then: reading leaves the tree, an operation leaves the
tree that it says, and a sequence goes on with the tree of its first step, also
into a failure.  A proof about a task takes it apart with these and speaks of
trees only.
-/
import TokenSheets.FileTree.Task
import TokenSheets.Proofs.FileTree.Operations

namespace TokenSheets

namespace Task

variable {ε δ α β : Type} {t t' : FileTree}

/-! ### Single steps -/

@[simp] theorem on_pure (a : α) (t : FileTree) : (pure a : Task ε α).on t = (.ok a, t) := rfl

@[simp] theorem on_throw (e : ε) (t : FileTree) : (throw e : Task ε α).on t = (.error e, t) := rfl

@[simp] theorem on_get (t : FileTree) : (get : Task ε FileTree).on t = (.ok t, t) := rfl

@[simp] theorem on_set (t t' : FileTree) : (set t' : Task ε PUnit).on t = (.ok ⟨⟩, t') := rfl

@[simp] theorem on_ite {p : Prop} [Decidable p] (x y : Task ε α) (t : FileTree) :
    (if p then x else y).on t = if p then x.on t else y.on t := by
  split <;> rfl

/-! ### Sequences -/

theorem on_bind (x : Task ε α) (f : α → Task ε β) (t : FileTree) :
    (x >>= f).on t =
      match x.on t with
      | (.ok a, t') => (f a).on t'
      | (.error e, t') => (.error e, t') := by
  show ExceptT.bindCont (m := StateM FileTree) f (x.on t).1 (x.on t).2 = _
  rcases x.on t with ⟨e | a, t'⟩ <;> rfl

/-- A sequence after a first step that succeeds. -/
theorem on_bind_of_ok {x : Task ε α} {a : α} (h : x.on t = (.ok a, t')) (f : α → Task ε β) :
    (x >>= f).on t = (f a).on t' := by
  rw [on_bind, h]

/-- A sequence after a first step that fails. -/
theorem on_bind_of_error {x : Task ε α} {e : ε} (h : x.on t = (.error e, t'))
    (f : α → Task ε β) : (x >>= f).on t = (.error e, t') := by
  rw [on_bind, h]

/-- A sequence succeeds exactly when both of its steps do, one after the other. -/
theorem on_bind_eq_ok {x : Task ε α} {f : α → Task ε β} {b : β} :
    (x >>= f).on t = (.ok b, t') ↔ ∃ a t₁, x.on t = (.ok a, t₁) ∧ (f a).on t₁ = (.ok b, t') := by
  rw [on_bind]
  rcases x.on t with ⟨e | a, t₁⟩
  · constructor
    · intro h
      cases h
    · rintro ⟨a, t₂, h, -⟩
      cases h
  · constructor
    · exact fun h => ⟨a, t₁, rfl, h⟩
    · rintro ⟨a', t₂, h, hf⟩
      obtain ⟨ha, rfl⟩ := Prod.mk.inj h
      rw [Except.ok.inj ha]
      exact hf

/-- A sequence ends where its first step fails, or with the second one. -/
theorem on_bind_cases {x : Task ε α} {f : α → Task ε β} {r : Except ε β}
    (h : (x >>= f).on t = (r, t')) :
    (∃ e, x.on t = (.error e, t') ∧ r = .error e) ∨
      ∃ a t₁, x.on t = (.ok a, t₁) ∧ (f a).on t₁ = (r, t') := by
  rcases hx : x.on t with ⟨e | a, t₁⟩
  · rw [on_bind_of_error hx] at h
    obtain ⟨rfl, rfl⟩ := Prod.mk.inj h
    exact Or.inl ⟨e, rfl, rfl⟩
  · rw [on_bind_of_ok hx] at h
    exact Or.inr ⟨a, t₁, rfl, h⟩

@[simp] theorem on_pure_bind (a : α) (f : α → Task ε β) (t : FileTree) :
    ((pure a : Task ε α) >>= f).on t = (f a).on t := on_bind_of_ok (on_pure a t) f

@[simp] theorem on_throw_bind (e : ε) (f : α → Task ε β) (t : FileTree) :
    ((throw e : Task ε α) >>= f).on t = (.error e, t) := on_bind_of_error (on_throw e t) f

@[simp] theorem on_get_bind (f : FileTree → Task ε β) (t : FileTree) :
    ((get : Task ε FileTree) >>= f).on t = (f t).on t := on_bind_of_ok (on_get t) f

@[simp] theorem on_set_bind (t' : FileTree) (f : PUnit → Task ε β) (t : FileTree) :
    ((set t' : Task ε PUnit) >>= f).on t = (f ⟨⟩).on t' := on_bind_of_ok (on_set t t') f

/-! ### Operations -/

@[simp] theorem on_look (f : FileTree → α) (t : FileTree) :
    (look f : Task ε α).on t = (.ok (f t), t) := rfl

@[simp] theorem on_look_bind (g : FileTree → α) (f : α → Task ε β) (t : FileTree) :
    (look g >>= f).on t = (f (g t)).on t := on_bind_of_ok (on_look g t) f

@[simp] theorem on_tryLook (f : FileTree → Except ε α) (t : FileTree) :
    (tryLook f).on t = (f t, t) := by
  rw [tryLook, on_get_bind]
  cases f t <;> rfl

theorem on_tryLook_of_eq {f : FileTree → Except ε α} {x : Except ε α} (h : f t = x) :
    (tryLook f).on t = (x, t) := by
  rw [on_tryLook, h]

@[simp] theorem on_change (f : FileTree → Except ε FileTree) (t : FileTree) :
    (change f).on t =
      match f t with
      | .ok t' => (.ok (), t')
      | .error e => (.error e, t) := by
  rw [change, on_get_bind]
  cases f t <;> rfl

@[simp] theorem on_perform (wrap : δ → ε) (f : FileTree → Except δ Unit × FileTree)
    (t : FileTree) : (perform wrap f).on t = ((f t).1.mapError wrap, (f t).2) := by
  rw [perform, on_get_bind]
  rcases f t with ⟨e | ⟨⟩, t'⟩ <;> rfl

theorem on_change_eq_ok {f : FileTree → Except ε FileTree} :
    (change f).on t = (.ok (), t') ↔ f t = .ok t' := by
  rw [on_change]
  cases f t <;> simp

theorem on_perform_eq_ok {wrap : δ → ε} {f : FileTree → Except δ Unit × FileTree} :
    (perform wrap f).on t = (.ok (), t') ↔ f t = (.ok (), t') := by
  rw [on_perform, Prod.ext_iff, Prod.ext_iff, Outcome.mapError_eq_ok]

theorem on_perform_eq_error {wrap : δ → ε} {f : FileTree → Except δ Unit × FileTree} {e : ε} :
    (perform wrap f).on t = (.error e, t') ↔ ∃ d, f t = (.error d, t') ∧ wrap d = e := by
  rw [on_perform]
  rcases f t with ⟨d | ⟨⟩, t₁⟩
  · simp [Except.mapError, and_comm]
  · simp [Except.mapError]

@[simp] theorem on_mapError (wrap : δ → ε) (x : Task δ α) (t : FileTree) :
    (x.mapError wrap).on t = ((x.on t).1.mapError wrap, (x.on t).2) := by
  rw [mapError, on_get_bind]
  rcases x.on t with ⟨e | a, t'⟩ <;> rfl

theorem on_mapError_of_ok {x : Task δ α} {a : α} (h : x.on t = (.ok a, t')) (wrap : δ → ε) :
    (x.mapError wrap).on t = (.ok a, t') := by
  rw [on_mapError, h]
  rfl

theorem on_mapError_of_error {x : Task δ α} {e : δ} (h : x.on t = (.error e, t'))
    (wrap : δ → ε) : (x.mapError wrap).on t = (.error (wrap e), t') := by
  rw [on_mapError, h]
  rfl

/-! ### Tasks that only edit -/

/-- From every regular tree with the given working directory, and however it ends, the task only
edits. -/
def Edits (x : Task ε α) (here : Place) (scope made : Set Place) : Prop :=
  ∀ (t t' : FileTree) (r : Except ε α), t.Regular → t.here = here → x.on t = (r, t') →
    FileTree.Edit scope made t t'

section
variable {here : Place} {scope made : Set Place}

theorem Edits.bind {x : Task ε α} {f : α → Task ε β} (hx : x.Edits here scope made)
    (hf : ∀ a, (f a).Edits here scope made) : (x >>= f).Edits here scope made := by
  intro t t' r ht hhere h
  rcases on_bind_cases h with ⟨e, hfirst, -⟩ | ⟨a, t₁, hfirst, hrest⟩
  · exact hx _ _ _ ht hhere hfirst
  · have hedit := hx _ _ _ ht hhere hfirst
    exact hedit.trans (hf a _ _ _ hedit.regular (hedit.here.trans hhere) hrest)

theorem edits_pure (a : α) : (pure a : Task ε α).Edits here scope made := by
  intro t t' r ht _ h
  obtain ⟨-, rfl⟩ := Prod.mk.inj h
  exact FileTree.Edit.refl ht

end

end Task

end TokenSheets
