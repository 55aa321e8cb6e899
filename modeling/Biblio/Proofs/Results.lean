/-! Results and failures.

    A computation that may fail goes on with the result of its first step, or ends with the failure
    of that. -/

namespace Biblio

section Except
variable {ε α β : Type}

@[simp] theorem Except.ok_bind (a : α) (f : α → Except ε β) : (Except.ok a >>= f) = f a := rfl

@[simp] theorem Except.error_bind (e : ε) (f : α → Except ε β) :
    ((Except.error e : Except ε α) >>= f) = .error e := rfl

@[simp] theorem Except.throw_eq (e : ε) : (throw e : Except ε α) = .error e := rfl

@[simp] theorem Except.pure_eq (a : α) : (pure a : Except ε α) = .ok a := rfl

theorem Except.bind_eq_ok {x : Except ε α} {f : α → Except ε β} {b : β} :
    (x >>= f) = .ok b ↔ ∃ a, x = .ok a ∧ f a = .ok b := by
  cases x <;> simp

theorem Except.map_eq_ok {x : Except ε α} {f : α → β} {b : β} :
    x.map f = .ok b ↔ ∃ a, x = .ok a ∧ f a = b := by
  cases x <;> simp [Except.map]

/-- Results are collected for all items, or there are none. -/
theorem mapM_eq_ok {f : α → Except ε β} {as : List α} {bs : List β} :
    as.mapM f = .ok bs ↔ as.map f = bs.map .ok := by
  induction as generalizing bs with
  | nil => cases bs <;> simp [eq_comm]
  | cons a as ih =>
    rw [List.mapM_cons, List.map_cons]
    cases bs with
    | nil => cases f a <;> simp [Except.bind_eq_ok]
    | cons b bs => simp [Except.bind_eq_ok, ih]

theorem mem_of_mapM_eq_ok {f : α → Except ε β} {as : List α} {bs : List β}
    (h : as.mapM f = .ok bs) {b : β} : b ∈ bs ↔ ∃ a ∈ as, f a = .ok b := by
  have mem : Except.ok b ∈ bs.map (Except.ok (ε := ε)) ↔ b ∈ bs := by simp
  rw [← mem, ← mapM_eq_ok.1 h, List.mem_map]

theorem map_eq_of_mapM_eq_ok {γ : Type} {f : α → Except ε β} {g : β → γ} {g' : α → γ} {as : List α}
    {bs : List β} (h : as.mapM f = .ok bs) (same : ∀ a b, f a = .ok b → g b = g' a) :
    bs.map g = as.map g' := by
  induction as generalizing bs with
  | nil =>
    cases h
    rfl
  | cons a as ih =>
    rw [List.mapM_cons] at h
    obtain ⟨b, hb, h⟩ := Except.bind_eq_ok.1 h
    obtain ⟨bs, hbs, h⟩ := Except.bind_eq_ok.1 h
    cases h
    rw [List.map_cons, List.map_cons, same a b hb, ih hbs]

/-- The failure of a collection is that of an item. -/
theorem mapM_cases (f : α → Except ε β) (as : List α) :
    (∃ bs, as.mapM f = .ok bs) ∨ ∃ a ∈ as, ∃ e, f a = .error e ∧ as.mapM f = .error e := by
  induction as with
  | nil => exact .inl ⟨[], rfl⟩
  | cons a as ih =>
    rw [List.mapM_cons]
    cases hb : f a with
    | error e => exact .inr ⟨a, List.mem_cons_self, e, hb, rfl⟩
    | ok b =>
      rcases ih with ⟨bs, ok⟩ | ⟨a', ha', e, failed, all⟩
      · exact .inl ⟨b :: bs, by rw [ok]; rfl⟩
      · exact .inr ⟨a', List.mem_cons_of_mem _ ha', e, failed, by rw [all]; rfl⟩

end Except

end Biblio
