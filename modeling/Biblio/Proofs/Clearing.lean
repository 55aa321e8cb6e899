import Biblio.Proofs.Acceptance
import Biblio.Proofs.Redirects

/-! What acceptance makes of the order of edits.

    Acceptance compares every base with the tables as they were, and writes what is no redirect
    before it looks at a redirect. So order matters among redirects only, and there for one reason:
    an identity may come to redirect only when nothing redirects to it any more. A redirect that
    takes its identity away from another one has to stand before the redirect of that other one. -/

namespace Biblio

namespace Edit

/-- What an edit asks for: the identity, where it is to point before, and what is to be done. -/
def change (e : Edit) : EntityId × Pointer × EditAction := (e.ident, e.base, e.action)

/-- Of two redirects, the first one takes its identity away from that of the second one. -/
def Clears (e f : Edit) : Prop :=
  e.action.isRedirect = true ∧ f.action.isRedirect = true ∧ e.previousRedirect = some f.ident

end Edit

instance (e f : Edit) : Decidable (e.Clears f) := inferInstanceAs (Decidable (_ ∧ _ ∧ _))

/-- Every redirect stands behind those that take identities away from its own. -/
def InClearingOrder (edits : List Edit) : Prop := edits.Pairwise fun e f => ¬f.Clears e

instance (edits : List Edit) : Decidable (InClearingOrder edits) :=
  inferInstanceAs (Decidable (List.Pairwise _ edits))

/-- Edits that ask for the same, in whatever order. -/
def SameChanges (edits edits' : List Edit) : Prop :=
  (edits.map (·.change)).Perm (edits'.map (·.change))

/-- What is stored of an identity, without the time of its creation. -/
def Identity.standing (x : Identity) : EntityId × EntityKind × Pointer × Bool × Bool :=
  (x.id, x.kind, x.pointer, x.isLive, x.isDeleted)

section Changes
variable {edits edits' : List Edit}

namespace SameChanges

theorem refl (edits : List Edit) : SameChanges edits edits := List.Perm.refl _

theorem symm (same : SameChanges edits edits') : SameChanges edits' edits := List.Perm.symm same

theorem exists_mem (same : SameChanges edits edits') {e : Edit} (he : e ∈ edits) :
    ∃ f ∈ edits', f.ident = e.ident ∧ f.base = e.base ∧ f.action = e.action := by
  have there : e.change ∈ edits'.map (·.change) :=
    (List.Perm.mem_iff same).1 (List.mem_map_of_mem he)
  obtain ⟨f, hf, change⟩ := List.mem_map.1 there
  simp only [Edit.change, Prod.mk.injEq] at change
  exact ⟨f, hf, change⟩

theorem append {more more' : List Edit} (same : SameChanges edits edits')
    (same' : SameChanges more more') : SameChanges (edits ++ more) (edits' ++ more') := by
  rw [SameChanges, List.map_append, List.map_append]
  exact List.Perm.append same same'

/-- What is no redirect is the same in both. -/
theorem plain (same : SameChanges edits edits') :
    SameChanges (edits.filter (!·.action.isRedirect)) (edits'.filter (!·.action.isRedirect)) := by
  have filtered := List.Perm.filter (fun p => !p.2.2.isRedirect) same
  rwa [List.filter_map, List.filter_map] at filtered

/-- Without redirects that clear others, every order is a clearing one. -/
theorem inClearingOrder (same : SameChanges edits edits')
    (none : ∀ e ∈ edits, ∀ f ∈ edits, ¬e.Clears f) : InClearingOrder edits' := by
  refine List.pairwise_of_forall_mem_list fun e he f hf clears => ?_
  obtain ⟨redirects, redirects', away⟩ := clears
  obtain ⟨e', he', ident, -, action'⟩ := same.symm.exists_mem he
  obtain ⟨f', hf', -, base, action⟩ := same.symm.exists_mem hf
  refine none f' hf' e' he' ⟨action ▸ redirects, action' ▸ redirects', ?_⟩
  rw [(Prod.mk.inj base).2, away, ident]

end SameChanges

namespace Identity

/-- What edits do to an identity is in what they ask for. -/
theorem under_of_sameChanges (same : SameChanges edits edits')
    (distinct : (edits.map (·.ident)).Nodup) (x : Identity) : x.under edits = x.under edits' := by
  rcases under_cases edits' x with ⟨h, others⟩ | ⟨f, hf, hid, h⟩
  · rw [h, under_of_forall_ne]
    intro e he heq
    obtain ⟨f, hf, ident, -⟩ := same.exists_mem he
    exact others f hf (ident.trans heq)
  · obtain ⟨e, he, ident, -, action⟩ := same.symm.exists_mem hf
    rw [h, under_of_mem distinct he (hid.trans ident.symm), action]

theorem standing_eq_iff {x y : Identity} : x.standing = y.standing ↔
    x.id = y.id ∧ x.kind = y.kind ∧ x.pointer = y.pointer ∧ x.isLive = y.isLive ∧
      x.isDeleted = y.isDeleted := by
  simp only [standing, Prod.mk.injEq]

theorem standing_after {x y : Identity} (h : x.standing = y.standing) (a : EditAction) :
    (x.after a).standing = (y.after a).standing := by
  simp only [standing, pointer, Prod.mk.injEq] at h
  cases a <;> simp [standing, pointer, after, h]

theorem standing_under {x y : Identity} (h : x.standing = y.standing) (edits : List Edit) :
    (x.under edits).standing = (y.under edits).standing := by
  have hid : x.id = y.id := (standing_eq_iff.1 h).1
  rw [under, under, hid]
  cases edits.find? (·.ident == y.id) with
  | none => exact h
  | some e => exact standing_after h e.action

end Identity

end Changes

namespace Store

/-- The tables have the same identities, which differ at most in when they were created. -/
def SameStanding (s t : Store) : Prop :=
  ∀ id, (s.identity? id).map (·.standing) = (t.identity? id).map (·.standing)

section Standing
variable {s t : Store} {edits edits' : List Edit}

theorem SameStanding.exists_eq (h : s.SameStanding t) {id : EntityId} {x : Identity}
    (hx : s.identity? id = some x) : ∃ y, t.identity? id = some y ∧ y.standing = x.standing := by
  have same := h id
  rw [hx, Option.map_some] at same
  exact Option.map_eq_some_iff.1 same.symm

theorem SameStanding.symm (h : s.SameStanding t) : t.SameStanding s := fun id => (h id).symm

theorem SameStanding.written (h : s.SameStanding t) (same : SameChanges edits edits')
    (distinct : (edits.map (·.ident)).Nodup) :
    (s.written edits).SameStanding (t.written edits') := by
  intro id
  have here := h id
  rw [identity?_written, identity?_written]
  cases hx : s.identity? id with
  | none =>
    rw [hx, Option.map_none, eq_comm, Option.map_eq_none_iff] at here
    rw [here]
    rfl
  | some x =>
    obtain ⟨y, hy, standing⟩ := h.exists_eq hx
    simp only [hy, Option.map_some, Identity.under_of_sameChanges same distinct]
    rw [Identity.standing_under standing.symm]

/-- Tables have the same identities if each has those of the other one. -/
theorem Keyed.sameStanding (keyed : s.Keyed) (keyed' : t.Keyed)
    (there : ∀ x ∈ s.identities, ∃ y ∈ t.identities, y.standing = x.standing)
    (back : ∀ y ∈ t.identities, ∃ x ∈ s.identities, x.standing = y.standing) :
    s.SameStanding t := by
  intro id
  cases hx : s.identity? id with
  | some x =>
    obtain ⟨known, rfl⟩ := keyed.identity?_eq_some.1 hx
    obtain ⟨y, hy, standing⟩ := there x known
    have hid : y.id = x.id := (Identity.standing_eq_iff.1 standing).1
    rw [keyed'.identity?_eq_some.2 ⟨hy, hid⟩, Option.map_some, Option.map_some, standing]
  | none =>
    cases hy : t.identity? id with
    | none => rfl
    | some y =>
      obtain ⟨new, rfl⟩ := keyed'.identity?_eq_some.1 hy
      obtain ⟨x, known, standing⟩ := back y new
      have hid : x.id = y.id := (Identity.standing_eq_iff.1 standing).1
      rw [keyed.identity?_eq_some.2 ⟨known, hid⟩] at hx
      cases hx

end Standing

/-! ### What does not depend on the order -/

/-- As the tables are, edits may take effect together if their order is right. -/
structure Suits (s : Store) (edits : List Edit) : Prop where
  bases : ∀ e ∈ edits, ∃ x, s.identity? e.ident = some x ∧ x.isDeleted = false ∧ x.pointer = e.base
  /-- Nothing is made to redirect to what is made to redirect. -/
  apart : ∀ e ∈ edits, ∀ target, e.action = .redirect target →
    ∀ f ∈ edits, f.action.isRedirect = true → f.ident ≠ target
  lands : ∀ e ∈ edits, ∀ target, e.action = .redirect target →
    ∃ y, (s.written (edits.filter (!·.action.isRedirect))).identity? target = some y ∧
      y.isLive = true ∧ y.isDeleted = false ∧ y.redirect = none
  /-- What redirects to an identity that is made to redirect is itself made to redirect. -/
  freed : ∀ e ∈ edits, e.action.isRedirect = true →
    ∀ id x, (s.written (edits.filter (!·.action.isRedirect))).identity? id = some x →
      x.redirect = some e.ident → x.isLive = true → x.isDeleted = false →
      ∃ f ∈ edits, f.action.isRedirect = true ∧ f.ident = id

section Suits
variable {s t : Store} {edits edits' : List Edit}

theorem Suits.of_same (suits : s.Suits edits) (standing : s.SameStanding t)
    (same : SameChanges edits edits') (distinct : (edits.map (·.ident)).Nodup) :
    t.Suits edits' := by
  have plain := distinct.sublist ((List.filter_sublist (p := (!·.action.isRedirect))).map _)
  have written := standing.written same.plain plain
  constructor
  · intro e he
    obtain ⟨e', he', ident, base, -⟩ := same.symm.exists_mem he
    obtain ⟨x, hx, kept, points⟩ := suits.bases e' he'
    obtain ⟨y, hy, alike⟩ := standing.exists_eq hx
    obtain ⟨-, -, pointer, -, deleted⟩ := Identity.standing_eq_iff.1 alike
    exact ⟨y, ident ▸ hy, deleted.trans kept, pointer.trans (points.trans base)⟩
  · intro e he target redirects f hf redirects' hid
    obtain ⟨e', he', -, -, action⟩ := same.symm.exists_mem he
    obtain ⟨f', hf', ident, -, action'⟩ := same.symm.exists_mem hf
    exact suits.apart e' he' target (action.trans redirects) f' hf' (action' ▸ redirects')
      (ident.trans hid)
  · intro e he target redirects
    obtain ⟨e', he', -, -, action⟩ := same.symm.exists_mem he
    obtain ⟨y, hy, live, kept, redirect⟩ := suits.lands e' he' target (action.trans redirects)
    obtain ⟨z, hz, alike⟩ := written.exists_eq hy
    obtain ⟨-, -, pointer, live', deleted⟩ := Identity.standing_eq_iff.1 alike
    exact ⟨z, hz, live'.trans live, deleted.trans kept, (Prod.mk.inj pointer).2.trans redirect⟩
  · intro e he redirects id y hy hred live kept
    obtain ⟨e', he', ident, -, action⟩ := same.symm.exists_mem he
    obtain ⟨x, hx, alike⟩ := written.symm.exists_eq hy
    obtain ⟨-, -, pointer, live', deleted⟩ := Identity.standing_eq_iff.1 alike
    obtain ⟨f', hf', redirects', hid⟩ := suits.freed e' he' (action ▸ redirects) id x hx
      ((Prod.mk.inj pointer).2.trans (ident ▸ hred)) (live'.trans live) (deleted.trans kept)
    obtain ⟨f, hf, ident', -, action'⟩ := same.exists_mem hf'
    exact ⟨f, hf, action' ▸ redirects', ident'.trans hid⟩

end Suits

/-! ### What does -/

/-- As the tables are, an identity may redirect to another one once these redirects are written. -/
structure MayRedirectBehind (s : Store) (done : List Edit) (source target : EntityId) : Prop where
  apart : target ≠ source
  others : ∀ f ∈ done, f.ident ≠ target ∧ f.action ≠ .redirect source
  lands : ∃ y, s.identity? target = some y ∧ y.isLive = true ∧ y.isDeleted = false ∧
    y.redirect = none
  freed : ∀ id x, s.identity? id = some x → x.redirect = some source → x.isLive = true →
    x.isDeleted = false → ∃ f ∈ done, f.ident = id

section Order
variable {s : Store} {edits : List Edit}

theorem mem_redirects {e : Edit} :
    e ∈ edits.filter (·.action.isRedirect) ↔ e ∈ edits ∧ e.action.isRedirect = true :=
  List.mem_filter

theorem Keyed.mayRedirect_written_iff (keyed : s.Keyed) {done : List Edit}
    (distinct : (done.map (·.ident)).Nodup) (fits : ∀ f ∈ done, ∃ x ∈ s.identities, f.Fits x)
    (redirects : ∀ f ∈ done, f.action.isRedirect = true) {source target : EntityId} :
    (s.written done).MayRedirect source target ↔ s.MayRedirectBehind done source target := by
  constructor
  · rintro ⟨apart, ⟨z, hz, hid, live, kept, redirect⟩, untargeted⟩
    obtain ⟨y, hy, rfl⟩ := List.mem_map.1 hz
    rw [Identity.under_id] at hid
    rcases Identity.under_cases done y with ⟨same, others⟩ | ⟨f, hf, -, changed⟩
    swap
    -- what is made to redirect is no place to land on
    · obtain ⟨next, hact⟩ := EditAction.isRedirect_eq_true.1 (redirects f hf)
      rw [changed, hact] at redirect
      cases redirect
    rw [same] at live kept redirect
    refine ⟨apart, fun f hf => ⟨hid ▸ others f hf, fun hact => ?_⟩,
      ⟨y, keyed.identity?_eq_some.2 ⟨hy, hid⟩, live, kept, redirect⟩, ?_⟩
    · obtain ⟨x, hx, fitted⟩ := fits f hf
      have changed := Identity.under_of_mem distinct hf fitted.ident
      rw [hact] at changed
      have mem : x.after (.redirect source) ∈ (s.written done).identities :=
        List.mem_map.2 ⟨x, hx, changed⟩
      exact untargeted _ mem rfl ⟨rfl, fitted.kept⟩
    · intro id x hx hred live kept
      obtain ⟨known, rfl⟩ := keyed.identity?_eq_some.1 hx
      by_contra none
      have same : x.under done = x :=
        Identity.under_of_forall_ne fun f hf heq => none ⟨f, hf, heq⟩
      exact untargeted x (List.mem_map.2 ⟨x, known, same⟩) hred ⟨live, kept⟩
  · rintro ⟨apart, others, ⟨y, hy, live, kept, redirect⟩, freed⟩
    obtain ⟨known, rfl⟩ := keyed.identity?_eq_some.1 hy
    have same : y.under done = y := Identity.under_of_forall_ne fun f hf => (others f hf).1
    refine ⟨apart, ⟨y, List.mem_map.2 ⟨y, known, same⟩, rfl, live, kept, redirect⟩, ?_⟩
    rintro z hz hred ⟨live, kept⟩
    obtain ⟨x, hx, rfl⟩ := List.mem_map.1 hz
    rcases Identity.under_cases done x with ⟨same, unedited⟩ | ⟨f, hf, -, changed⟩
    · rw [same] at hred live kept
      obtain ⟨f, hf, hid⟩ := freed x.id x (keyed.identity?_eq_some.2 ⟨hx, rfl⟩) hred live kept
      exact unedited f hf hid
    · rw [changed, Identity.after_redirect] at hred
      exact (others f hf).2 (EditAction.target?_eq_some.1 hred)

/-- Among edits of different identities, what is no redirect leaves alone what is redirected. -/
theorem identity?_plain (distinct : (edits.map (·.ident)).Nodup) {e : Edit} (he : e ∈ edits)
    (redirects : e.action.isRedirect = true) :
    (s.written (edits.filter (!·.action.isRedirect))).identity? e.ident =
      s.identity? e.ident := by
  rw [identity?_written]
  cases hx : s.identity? e.ident with
  | none => rfl
  | some x =>
    have hid : x.id = e.ident := by simpa using List.find?_some hx
    rw [Option.map_some, Identity.under_of_forall_ne]
    intro f hf same
    obtain ⟨hf, plain⟩ := List.mem_filter.1 hf
    obtain rfl := List.inj_on_of_nodup_map distinct hf he (same.trans hid)
    simp [redirects] at plain

/-- What a redirect needs behind the redirects before it. -/
theorem Keyed.mayRedirect_behind_iff (keyed : s.Keyed) (distinct : (edits.map (·.ident)).Nodup)
    (bases : ∀ e ∈ edits, ∃ x, s.identity? e.ident = some x ∧ x.isDeleted = false ∧
      x.pointer = e.base)
    {done : List Edit} {e : Edit} {rest : List Edit}
    (order : edits.filter (·.action.isRedirect) = done ++ e :: rest) {target : EntityId} :
    ((s.written (edits.filter (!·.action.isRedirect))).written done).MayRedirect e.ident target ↔
      (s.written (edits.filter (!·.action.isRedirect))).MayRedirectBehind done e.ident target := by
  have written := keyed.written (edits.filter (!·.action.isRedirect))
  have mem : ∀ f ∈ done, f ∈ edits ∧ f.action.isRedirect = true := by
    intro f hf
    refine mem_redirects.1 ?_
    rw [order]
    exact List.mem_append_left _ hf
  have sublist : done.Sublist edits :=
    (order ▸ List.sublist_append_left done (e :: rest)).trans List.filter_sublist
  refine written.mayRedirect_written_iff (distinct.sublist (sublist.map _)) ?_ fun f hf =>
    (mem f hf).2
  intro f hf
  obtain ⟨hf, redirects⟩ := mem f hf
  obtain ⟨x, hx, kept, points⟩ := bases f hf
  rw [← identity?_plain distinct hf redirects] at hx
  obtain ⟨known, hid⟩ := written.identity?_eq_some.1 hx
  exact ⟨x, known, hid, kept, points⟩

theorem pairwise_iff_split {α : Type} {R : α → α → Prop} {xs : List α} :
    xs.Pairwise R ↔ ∀ done x rest, xs = done ++ x :: rest → ∀ y ∈ rest, R x y := by
  constructor
  · rintro h done x rest rfl y hy
    exact (List.pairwise_cons.1 (List.pairwise_append.1 h).2.1).1 y hy
  · intro h
    induction xs with
    | nil => exact .nil
    | cons x xs ih =>
      refine List.pairwise_cons.2 ⟨h [] x xs rfl, ih fun done y rest heq => ?_⟩
      exact h (x :: done) y rest (by rw [heq]; rfl)

/-- Among redirects, the clearing order is told by their bases. -/
theorem inClearingOrder_iff : InClearingOrder edits ↔
    ∀ done e rest, edits.filter (·.action.isRedirect) = done ++ e :: rest →
      ∀ f ∈ rest, f.previousRedirect ≠ some e.ident := by
  rw [← pairwise_iff_split, List.pairwise_filter, InClearingOrder]
  refine List.Pairwise.iff fun {e f} => ?_
  constructor
  · exact fun h redirects redirects' away => h ⟨redirects', redirects, away⟩
  · exact fun h ⟨redirects', redirects, away⟩ => h redirects redirects' away

theorem Admits.suits (h : s.Admits edits) (keyed : s.Keyed)
    (distinct : (edits.map (·.ident)).Nodup) : s.Suits edits := by
  have bases : ∀ e ∈ edits, ∃ x, s.identity? e.ident = some x ∧ x.isDeleted = false ∧
      x.pointer = e.base := by
    intro e he
    obtain ⟨x, hx, kept, revision, redirect⟩ := h.bases e he
    exact ⟨x, hx, kept, Prod.ext revision redirect⟩
  have behind := fun {done e rest target} order redirects =>
    (keyed.mayRedirect_behind_iff distinct bases order).1 (h.redirects done e rest target order
      redirects)
  have split : ∀ {e}, e ∈ edits → e.action.isRedirect = true →
      ∃ done rest, edits.filter (·.action.isRedirect) = done ++ e :: rest :=
    fun he redirects => List.append_of_mem (mem_redirects.2 ⟨he, redirects⟩)
  refine ⟨bases, ?_, ?_, ?_⟩
  · intro e he target redirects f hf redirects'
    obtain ⟨done, rest, order⟩ := split he (by rw [redirects]; rfl)
    have needs := behind order redirects
    have hf := mem_redirects.2 ⟨hf, redirects'⟩
    rw [order] at hf
    rcases List.mem_append.1 hf with before | hf
    · exact (needs.others f before).1
    rcases List.mem_cons.1 hf with rfl | later
    · exact needs.apart.symm
    -- a redirect that is behind it would find that something redirects to its identity
    · obtain ⟨between, rest', rfl⟩ := List.append_of_mem later
      obtain ⟨target', redirects'⟩ := EditAction.isRedirect_eq_true.1 redirects'
      have order' : edits.filter (·.action.isRedirect) = (done ++ e :: between) ++ f :: rest' := by
        rw [order, List.append_assoc]
        rfl
      rintro rfl
      exact ((behind order' redirects').others e (by simp)).2 redirects
  · intro e he target redirects
    obtain ⟨done, rest, order⟩ := split he (by rw [redirects]; rfl)
    exact (behind order redirects).lands
  · intro e he redirects id x hx hred live kept
    obtain ⟨target, hact⟩ := EditAction.isRedirect_eq_true.1 redirects
    obtain ⟨done, rest, order⟩ := split he redirects
    obtain ⟨f, hf, hid⟩ := (behind order hact).freed id x hx hred live kept
    have mem : f ∈ edits.filter (·.action.isRedirect) := order ▸ List.mem_append_left _ hf
    obtain ⟨hf, redirects'⟩ := mem_redirects.1 mem
    exact ⟨f, hf, redirects', hid⟩

theorem Admits.inClearingOrder (h : s.Admits edits) (arises : s.Arises)
    (distinct : (edits.map (·.ident)).Nodup) : InClearingOrder edits := by
  have suits := h.suits arises.keyed distinct
  refine inClearingOrder_iff.2 fun done e rest order f hf away => ?_
  have mem : ∀ g ∈ done ++ e :: rest, g ∈ edits ∧ g.action.isRedirect = true :=
    fun g hg => mem_redirects.1 (order ▸ hg)
  obtain ⟨he, redirects⟩ := mem e (by simp)
  obtain ⟨hf', redirects'⟩ := mem f (by simp [hf])
  obtain ⟨target, hact⟩ := EditAction.isRedirect_eq_true.1 redirects
  obtain ⟨x, hx, kept, points⟩ := suits.bases f hf'
  have hred : x.redirect = some e.ident := (Prod.mk.inj points).2.trans away
  have live := (arises.straight.source x (List.mem_of_find?_eq_some hx) _ hred).1
  have needs := (arises.keyed.mayRedirect_behind_iff distinct suits.bases order).1
    (h.redirects done e rest target order hact)
  rw [← identity?_plain distinct hf' redirects'] at hx
  -- what redirects to the identity is edited before it, and so not behind it
  obtain ⟨g, hg, hid⟩ := needs.freed f.ident x hx hred live kept
  have idents : ((done ++ e :: rest).map (·.ident)).Nodup :=
    order ▸ distinct.sublist (List.filter_sublist.map _)
  rw [List.map_append, List.nodup_append] at idents
  exact idents.2.2 _ (List.mem_map_of_mem hg) _
    (List.mem_map_of_mem (List.mem_cons_of_mem _ hf)) hid

theorem Suits.admits (h : s.Suits edits) (arises : s.Arises)
    (distinct : (edits.map (·.ident)).Nodup) (clearing : InClearingOrder edits) :
    s.Admits edits := by
  constructor
  · intro e he
    obtain ⟨x, hx, kept, points⟩ := h.bases e he
    exact ⟨x, hx, kept, Prod.mk.inj points⟩
  intro done e rest target order hact
  refine (arises.keyed.mayRedirect_behind_iff distinct h.bases order).2 ?_
  have mem : ∀ g ∈ done ++ e :: rest, g ∈ edits ∧ g.action.isRedirect = true :=
    fun g hg => mem_redirects.1 (order ▸ hg)
  obtain ⟨he, redirects⟩ := mem e (by simp)
  refine ⟨(h.apart e he target hact e he redirects).symm, fun f hf => ?_,
    h.lands e he target hact, fun id x hx hred live kept => ?_⟩
  · obtain ⟨hf, redirects'⟩ := mem f (List.mem_append_left _ hf)
    exact ⟨h.apart e he target hact f hf redirects', fun hact' =>
      h.apart f hf e.ident hact' e he redirects rfl⟩
  · obtain ⟨f, hf, redirects', rfl⟩ := h.freed e he redirects id x hx hred live kept
    have there := mem_redirects.2 ⟨hf, redirects'⟩
    rw [identity?_plain distinct hf redirects'] at hx
    rw [order] at there
    rcases List.mem_append.1 there with before | there
    · exact ⟨f, before, rfl⟩
    rcases List.mem_cons.1 there with rfl | later
    -- nothing redirects to itself
    · obtain ⟨y, hy, -, -, redirect, -⟩ := arises.lands (List.mem_of_find?_eq_some hx) hred
      obtain rfl := Option.some.inj (hx.symm.trans hy)
      rw [redirect] at hred
      cases hred
    · obtain ⟨y, hy, -, points⟩ := h.bases f hf
      obtain rfl := Option.some.inj (hx.symm.trans hy)
      exact absurd ((Prod.mk.inj points).2.symm.trans hred)
        (inClearingOrder_iff.1 clearing done e rest order f later)

/-- Whether edits may take effect together is a matter of what they ask for, and of the order of
    those redirects of which one clears another. -/
theorem Arises.admits_iff (arises : s.Arises) (distinct : (edits.map (·.ident)).Nodup) :
    s.Admits edits ↔ s.Suits edits ∧ InClearingOrder edits :=
  ⟨fun h => ⟨h.suits arises.keyed distinct, h.inClearingOrder arises distinct⟩,
    fun h => h.1.admits arises distinct h.2⟩

end Order

end Store

end Biblio
