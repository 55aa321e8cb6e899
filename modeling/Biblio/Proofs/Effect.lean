import Biblio.Catalog.Acceptance
import Mathlib.Data.List.Nodup

/-! What edits do to the identities of a catalog.

    Edits take effect one after the other, and each is checked against what those before it left.
    The edits of an editgroup are of different identities; then all of them may as well be written
    at once, and every base may be compared with the identities as they were at first. What a
    redirect needs besides depends on the redirects before it. -/

namespace Biblio

/-- A revision, an identity to redirect to, or neither. -/
abbrev Pointer := Option RevisionId × Option EntityId

namespace EditAction

theorem revision?_eq_some {a : EditAction} {rev : RevisionId} :
    a.revision? = some rev ↔ a = .update rev := by
  cases a <;> simp [revision?]

theorem target?_eq_some {a : EditAction} {target : EntityId} :
    a.target? = some target ↔ a = .redirect target := by
  cases a <;> simp [target?]

theorem isRedirect_eq_true {a : EditAction} :
    a.isRedirect = true ↔ ∃ target, a = .redirect target := by
  cases a <;> simp [isRedirect]

end EditAction

namespace Edit

/-- Where the identity is to point for the edit to take effect. -/
def base (e : Edit) : Pointer := (e.previousRevision, e.previousRedirect)

/-- Where the edit makes the identity point. -/
def result (e : Edit) : Pointer := (e.action.revision?, e.action.target?)

end Edit

namespace Identity

/-- Where the identity points. -/
def pointer (x : Identity) : Pointer := (x.revision, x.redirect)

/-- The identity behind the edit of it among these; without one it stays as it is. -/
def under (edits : List Edit) (x : Identity) : Identity :=
  match edits.find? (·.ident == x.id) with
  | some e => x.after e.action
  | none => x

section After
variable (x : Identity) (a : EditAction)

@[simp] theorem after_id : (x.after a).id = x.id := by cases a <;> rfl
@[simp] theorem after_kind : (x.after a).kind = x.kind := by cases a <;> rfl
@[simp] theorem after_isLive : (x.after a).isLive = true := by cases a <;> rfl
@[simp] theorem after_revision : (x.after a).revision = a.revision? := by cases a <;> rfl
@[simp] theorem after_redirect : (x.after a).redirect = a.target? := by cases a <;> rfl
@[simp] theorem after_createdAt : (x.after a).createdAt = x.createdAt := by cases a <;> rfl

theorem after_isDeleted : (x.after a).isDeleted = true ↔ a = .delete ∨ x.isDeleted = true := by
  cases a <;> simp [after]

theorem after_pointer (e : Edit) : (x.after e.action).pointer = e.result := by
  simp [pointer, Edit.result]

end After

section Under
variable {edits : List Edit} {x : Identity}

theorem under_of_forall_ne (h : ∀ e ∈ edits, e.ident ≠ x.id) : x.under edits = x := by
  have : edits.find? (·.ident == x.id) = none := by simpa using h
  rw [under, this]

/-- Of identities that differ, an edit is written to its own. -/
theorem under_of_mem (distinct : (edits.map (·.ident)).Nodup) {e : Edit} (he : e ∈ edits)
    (hx : x.id = e.ident) : x.under edits = x.after e.action := by
  cases hf : edits.find? (·.ident == x.id) with
  | none =>
    rw [List.find?_eq_none] at hf
    exact absurd (by simp [hx]) (hf e he)
  | some f =>
    have hfx : f.ident = x.id := by simpa using List.find?_some hf
    have : f = e :=
      List.inj_on_of_nodup_map distinct (List.mem_of_find?_eq_some hf) he (hfx.trans hx)
    rw [under, hf, this]

theorem under_cases (edits : List Edit) (x : Identity) :
    x.under edits = x ∧ (∀ e ∈ edits, e.ident ≠ x.id) ∨
      ∃ e ∈ edits, x.id = e.ident ∧ x.under edits = x.after e.action := by
  cases hf : edits.find? (·.ident == x.id) with
  | none =>
    have hne : ∀ e ∈ edits, e.ident ≠ x.id := by simpa using hf
    exact .inl ⟨under_of_forall_ne hne, hne⟩
  | some e =>
    have he : e.ident = x.id := by simpa using List.find?_some hf
    exact .inr ⟨e, List.mem_of_find?_eq_some hf, he.symm, by rw [under, hf]⟩

@[simp] theorem under_nil (x : Identity) : x.under [] = x := rfl

@[simp] theorem under_id (edits : List Edit) (x : Identity) : (x.under edits).id = x.id := by
  rcases under_cases edits x with ⟨h, -⟩ | ⟨e, -, -, h⟩ <;> simp [h]

@[simp] theorem under_kind (edits : List Edit) (x : Identity) :
    (x.under edits).kind = x.kind := by
  rcases under_cases edits x with ⟨h, -⟩ | ⟨e, -, -, h⟩ <;> simp [h]

@[simp] theorem under_createdAt (edits : List Edit) (x : Identity) :
    (x.under edits).createdAt = x.createdAt := by
  rcases under_cases edits x with ⟨h, -⟩ | ⟨e, -, -, h⟩ <;> simp [h]

/-- Nothing makes an identity that is live cease to be so. -/
theorem under_isLive (h : x.isLive = true) : (x.under edits).isLive = true := by
  rcases under_cases edits x with ⟨h', -⟩ | ⟨e, -, -, h'⟩ <;> simp [h', h]

/-- What is written in two parts may be written at once. -/
theorem under_under {more : List Edit} (distinct : ((edits ++ more).map (·.ident)).Nodup) :
    (x.under edits).under more = x.under (edits ++ more) := by
  rcases under_cases edits x with ⟨h, hne⟩ | ⟨e, he, hx, h⟩
  · rw [h]
    have : edits.find? (·.ident == x.id) = none := by simpa using hne
    rw [under, under, List.find?_append, this, Option.none_or]
  · rw [under_of_mem distinct (List.mem_append_left _ he) hx, h, under_of_forall_ne]
    intro f hf heq
    rw [List.map_append, List.nodup_append] at distinct
    rw [after_id, hx] at heq
    exact distinct.2.2 _ (List.mem_map_of_mem he) _ (List.mem_map_of_mem hf) heq.symm

/-- The order of the edits makes no difference. -/
theorem under_of_perm {edits' : List Edit} (distinct : (edits.map (·.ident)).Nodup)
    (h : edits.Perm edits') : x.under edits = x.under edits' := by
  rcases under_cases edits' x with ⟨h', hne⟩ | ⟨e, he, hx, h'⟩
  · rw [h', under_of_forall_ne fun e he => hne e (h.mem_iff.1 he)]
  · rw [h', under_of_mem distinct (h.mem_iff.2 he) hx]

end Under

end Identity

/-- The edit is of this identity, which was not deleted and still points at the base. -/
structure Edit.Fits (e : Edit) (x : Identity) : Prop where
  ident : x.id = e.ident
  kept : x.isDeleted = false
  base : x.pointer = e.base

namespace Store

/-- The tables with the effects of these edits written at once. -/
def written (edits : List Edit) (s : Store) : Store :=
  { s with identities := s.identities.map (·.under edits) }

/-- As the tables are, an identity may redirect to another one. -/
structure MayRedirect (s : Store) (source target : EntityId) : Prop where
  apart : target ≠ source
  /-- The target is live, was not deleted and does not redirect. -/
  lands : ∃ x ∈ s.identities,
    x.id = target ∧ x.isLive = true ∧ x.isDeleted = false ∧ x.redirect = none
  /-- Nothing that is live and was not deleted redirects to the source. -/
  untargeted : ∀ x ∈ s.identities, x.redirect = some source →
    ¬(x.isLive = true ∧ x.isDeleted = false)

/-- As the tables are, an edit can take effect. -/
structure Takes (s : Store) (e : Edit) : Prop where
  fits : ∃ x ∈ s.identities, e.Fits x
  redirects : ∀ target, e.action = .redirect target → s.MayRedirect e.ident target

/-- Edits can take effect one after the other. -/
def TakesAll (s : Store) : List Edit → Prop
  | [] => True
  | e :: es => s.Takes e ∧ (s.written [e]).TakesAll es

section Written
variable {s : Store} {edits more : List Edit}

@[simp] theorem written_nil (s : Store) : s.written [] = s := by simp [written]

theorem written_written (distinct : ((edits ++ more).map (·.ident)).Nodup) :
    (s.written edits).written more = s.written (edits ++ more) := by
  simp [written, Identity.under_under distinct]

theorem written_of_perm (distinct : (edits.map (·.ident)).Nodup) (h : edits.Perm more) :
    s.written edits = s.written more := by
  simp only [written, Identity.under_of_perm distinct h]

theorem written_ids (s : Store) (edits : List Edit) :
    (s.written edits).identities.map (·.id) = s.identities.map (·.id) := by
  simp [written]

/-- A base is not changed by edits of other identities. -/
theorem exists_fits_written {e : Edit} (h : ∀ f ∈ edits, f.ident ≠ e.ident) :
    (∃ x ∈ (s.written edits).identities, e.Fits x) ↔ ∃ x ∈ s.identities, e.Fits x := by
  constructor
  · rintro ⟨y, hy, fits⟩
    obtain ⟨x, hx, rfl⟩ := List.mem_map.1 hy
    have hid : x.id = e.ident := by simpa using fits.ident
    rw [Identity.under_of_forall_ne (by simpa [hid] using h)] at fits
    exact ⟨x, hx, fits⟩
  · rintro ⟨x, hx, fits⟩
    refine ⟨x, List.mem_map.2 ⟨x, hx, ?_⟩, fits⟩
    exact Identity.under_of_forall_ne (by simpa [fits.ident] using h)

theorem takesAll_append (distinct : ((edits ++ more).map (·.ident)).Nodup) :
    s.TakesAll (edits ++ more) ↔ s.TakesAll edits ∧ (s.written edits).TakesAll more := by
  induction edits generalizing s with
  | nil => simp [TakesAll]
  | cons e es ih =>
    have tail : ((es ++ more).map (·.ident)).Nodup := (List.nodup_cons.1 distinct).2
    have here : ((([e] ++ es)).map (·.ident)).Nodup :=
      distinct.sublist ((List.sublist_append_left (e :: es) more).map _)
    rw [List.cons_append, TakesAll, TakesAll, ih tail, written_written here, List.singleton_append,
      and_assoc]

/-- Edits of different identities can take effect one after the other if each base fits at first,
    and each redirect is allowed behind the edits before it. -/
theorem takesAll_iff (distinct : (edits.map (·.ident)).Nodup) :
    s.TakesAll edits ↔ (∀ e ∈ edits, ∃ x ∈ s.identities, e.Fits x) ∧
      ∀ done e rest target, edits = done ++ e :: rest → e.action = .redirect target →
        (s.written done).MayRedirect e.ident target := by
  induction edits generalizing s with
  | nil => simp [TakesAll]
  | cons e es ih =>
    have tail : (es.map (·.ident)).Nodup := (List.nodup_cons.1 distinct).2
    have other : ∀ f ∈ es, ∀ g ∈ [e], g.ident ≠ f.ident := by
      intro f hf g hg heq
      rw [List.mem_singleton.1 hg] at heq
      exact (List.nodup_cons.1 distinct).1 (List.mem_map.2 ⟨f, hf, heq.symm⟩)
    rw [TakesAll, ih tail]
    -- the first edit changes no base of the others, and stands before each redirect among them
    constructor
    · rintro ⟨⟨fits, redirects⟩, fitAll, redirectAll⟩
      refine ⟨List.forall_mem_cons.2 ⟨fits, fun f hf =>
        (exists_fits_written (other f hf)).1 (fitAll f hf)⟩, ?_⟩
      rintro (_ | ⟨d, done⟩) f rest target heq hf
      · obtain ⟨rfl, -⟩ := List.cons.inj heq
        simpa using redirects target hf
      · obtain ⟨rfl, rfl⟩ := List.cons.inj heq
        have here : (([e] ++ done).map (·.ident)).Nodup :=
          distinct.sublist (((List.sublist_append_left done (f :: rest)).cons_cons e).map _)
        simpa [written_written here] using redirectAll done f rest target rfl hf
    · rintro ⟨fitAll, redirectAll⟩
      refine ⟨⟨fitAll e List.mem_cons_self, fun target hf => ?_⟩, fun f hf =>
        (exists_fits_written (other f hf)).2 (fitAll f (List.mem_cons_of_mem _ hf)), ?_⟩
      · simpa using redirectAll [] e es target rfl hf
      · rintro done f rest target rfl hf
        have here : (([e] ++ done).map (·.ident)).Nodup :=
          distinct.sublist (((List.sublist_append_left done (f :: rest)).cons_cons e).map _)
        rw [written_written here]
        exact redirectAll (e :: done) f rest target rfl hf

/-- What each edit that takes effect preserves is preserved by all of them. -/
theorem TakesAll.induction {P : Store → Prop}
    (step : ∀ {s : Store} {e : Edit}, s.Takes e → P s → P (s.written [e]))
    (distinct : (edits.map (·.ident)).Nodup) (h : s.TakesAll edits) (start : P s) :
    P (s.written edits) := by
  induction edits generalizing s with
  | nil => simpa using start
  | cons e es ih =>
    have := ih (List.nodup_cons.1 distinct).2 h.2 (step h.1 start)
    rwa [written_written (by simpa using distinct)] at this

end Written

end Store

end Biblio
