import Biblio.Proofs.Writes

/-! What is done on the way through a write.

    A write that succeeds comes down to deeds, each of which changes the tables under conditions of
    its own; between them nothing happens but that identifiers and times are drawn. A write that
    fails does nothing else. So it is enough to say once which deeds a write may do: what these
    preserve, the write preserves. -/

namespace Biblio

/-- The identifier is among the first that a source gives. -/
def Source.Gave (src : Source) (count : Nat) (u : Uuid) : Prop := ∃ i < count, src.id i = u

theorem Source.Gave.mono {src : Source} {m n : Nat} {u : Uuid} (h : src.Gave m u) (le : m ≤ n) :
    src.Gave n u := by
  obtain ⟨i, hi, rfl⟩ := h
  exact ⟨i, Nat.lt_of_lt_of_le hi le, rfl⟩

namespace Deed

/-- The identifiers of the rows that a deed makes. -/
def ids : Deed → List Uuid
  | editor e => [e.id.uuid]
  | editgroup g => [g.id.uuid]
  | revision r => [r.id.uuid]
  | stageNew x e => [x.id.uuid, e.id.uuid]
  | stage _ e => [e.id.uuid]
  | activate _ | remove _ | accept _ | abandon _ => []

/-- The time at which the editgroup or the identity was made that comes with a deed. -/
def time? : Deed → Option Instant
  | editgroup g => some g.createdAt
  | stageNew x _ => some x.createdAt
  | editor _ | activate _ | revision _ | stage _ _ | remove _ | accept _ | abandon _ => none

end Deed

/-! ### Catalogs -/

namespace Catalog

/-- Nothing that was drawn is given back. -/
structure DrawsOn (c d : Catalog) : Prop where
  drawn : c.drawn ≤ d.drawn
  ticks : c.ticks ≤ d.ticks

/-- The deed leads from one catalog to another: it changes the tables, and the identifiers and the
    time that it needs are drawn for it. -/
structure Does (src : Source) (c : Catalog) (k : Deed) (d : Catalog) : Prop extends
    DrawsOn c d where
  change : c.Change k d.toStore
  gave : ∀ u ∈ k.ids, src.Gave d.drawn u
  time : ∀ t, k.time? = some t → t = src.time c.ticks ∧ c.ticks < d.ticks

/-- What may happen between two catalogs: the tables stay as they are, or there is a deed of the
    kind. -/
inductive Step (src : Source) (may : Deed → Prop) (c d : Catalog) : Prop where
  | wait (draws : c.DrawsOn d) (same : d.toStore = c.toStore)
  | deed {k : Deed} (kind : may k) (does : c.Does src k d)

/-- Deeds of this kind lead from one catalog to another. -/
abbrev LeadsBy (src : Source) (may : Deed → Prop) : Catalog → Catalog → Prop :=
  Relation.ReflTransGen (Step src may)

variable {src : Source} {may may' : Deed → Prop} {c d e : Catalog}

theorem DrawsOn.refl (c : Catalog) : c.DrawsOn c := ⟨Nat.le_refl _, Nat.le_refl _⟩

theorem DrawsOn.trans (h : c.DrawsOn d) (h' : d.DrawsOn e) : c.DrawsOn e :=
  ⟨Nat.le_trans h.drawn h'.drawn, Nat.le_trans h.ticks h'.ticks⟩

/-- A deed that makes no rows needs nothing that is drawn. -/
theorem Does.of_change {k : Deed} (draws : c.DrawsOn d) (change : c.Change k d.toStore)
    (ids : k.ids = []) (time : k.time? = none) : c.Does src k d :=
  { draws with
    change := change
    gave := by simp [ids]
    time := by simp [time] }

theorem Does.arises {k : Deed} (does : c.Does src k d) (arises : c.Arises) : d.Arises :=
  Store.Arises.becomes arises does.change.becomes

namespace LeadsBy

theorem of_same (draws : c.DrawsOn d) (same : d.toStore = c.toStore) : c.LeadsBy src may d :=
  .single (.wait draws same)

theorem of_does {k : Deed} (kind : may k) (does : c.Does src k d) : c.LeadsBy src may d :=
  .single (.deed kind does)

theorem mono (h : c.LeadsBy src may d) (wider : ∀ k, may k → may' k) : c.LeadsBy src may' d := by
  refine Relation.ReflTransGen.mono (fun _ _ step => ?_) _ _ h
  cases step with
  | wait draws same => exact .wait draws same
  | deed kind does => exact .deed (wider _ kind) does

theorem drawsOn (h : c.LeadsBy src may d) : c.DrawsOn d := by
  induction h with
  | refl => exact .refl c
  | tail _ step ih =>
    cases step with
    | wait draws _ => exact ih.trans draws
    | deed _ does => exact ih.trans does.toDrawsOn

theorem becomes (h : c.LeadsBy src may d) : c.Becomes d.toStore := by
  induction h with
  | refl => exact .refl
  | tail _ step ih =>
    cases step with
    | wait _ same => exact same ▸ ih
    | deed _ does => exact ih.tail ⟨_, does.change⟩

/-- What holds of the tables and is preserved by every deed of the kind holds behind them. -/
theorem invariant {P : Store → Prop} (h : c.LeadsBy src may d) (arises : c.Arises)
    (change : ∀ {s t : Store} {k : Deed}, s.Arises → may k → s.Change k t → P s → P t)
    (holds : P c.toStore) : P d.toStore := by
  induction h with
  | refl => exact holds
  | tail before step ih =>
    cases step with
    | wait _ same => exact same ▸ ih
    | deed kind does => exact change (arises.becomes (becomes before)) kind does.change ih

/-- The tables behind deeds are in every relation that each deed of the kind brings about. -/
theorem related {R : Store → Store → Prop} [Std.Refl R] [IsTrans Store R]
    (h : c.LeadsBy src may d) (arises : c.Arises)
    (change : ∀ {s t : Store} {k : Deed}, s.Arises → may k → s.Change k t → R s t) :
    R c.toStore d.toStore :=
  h.invariant arises (fun there kind step before =>
    IsTrans.trans _ _ _ before (change there kind step)) (Std.Refl.refl _)

end LeadsBy

end Catalog

/-! ### Writes -/

/-- Whatever comes of a write, nothing that was drawn is given back. -/
def Write.DrawsOn {α : Type} (w : Write α) : Prop :=
  ∀ (src : Source) (c : Catalog), c.DrawsOn (w src c).2

namespace Write.DrawsOn

variable {α β : Type}

theorem pure (a : α) : (pure a : Write α).DrawsOn := fun _ c => .refl c

theorem look (read : Store → Except CatalogError α) : (Store.look read).DrawsOn :=
  fun _ c => .refl c

theorem demand (condition : Store → Bool) (refusal : Refusal) :
    (Store.demand condition refusal).DrawsOn := fun _ c => .refl c

theorem alter (change : Store → Store) : (Store.alter change).DrawsOn :=
  fun _ _ => ⟨Nat.le_refl _, Nat.le_refl _⟩

theorem throw (err : CatalogError) : (throw err : Write α).DrawsOn := fun _ c => .refl c

theorem drawId (kind : IdentKind) : (Store.drawId kind).DrawsOn :=
  fun _ _ => ⟨Nat.le_succ _, Nat.le_refl _⟩

theorem drawTime : Store.drawTime.DrawsOn := fun _ _ => ⟨Nat.le_refl _, Nat.le_succ _⟩

theorem bind {w : Write α} {f : α → Write β} (h : w.DrawsOn) (h' : ∀ a, (f a).DrawsOn) :
    (w >>= f).DrawsOn := by
  intro src c
  have first := h src c
  rw [Write.bind_apply]
  rcases hrun : w src c with ⟨err | a, d⟩ <;> rw [hrun] at first
  · exact first
  · exact first.trans (h' a src d)

theorem forM {w : α → Write PUnit} (h : ∀ a, (w a).DrawsOn) (as : List α) :
    (as.forM w).DrawsOn := by
  induction as with
  | nil => exact pure _
  | cons a as ih => exact bind (h a) fun _ => ih

/-- If a write fails the tables go back, but nothing that was drawn is given back. -/
theorem run {w : Write α} (h : w.DrawsOn) (src : Source) (c : Catalog) :
    c.DrawsOn (w.run src c).2 := by
  have draws := h src c
  unfold Write.run
  rcases hrun : w src c with ⟨err | a, d⟩ <;> rw [hrun] at draws
  · exact ⟨draws.drawn, draws.ticks⟩
  · exact draws

/-- A write that fails does no deeds. -/
theorem run_leadsBy {w : Write α} (h : w.DrawsOn) {src : Source} {c : Catalog} {may : Deed → Prop}
    (ok : ∀ a d, w src c = (.ok a, d) → c.LeadsBy src may d) :
    c.LeadsBy src may (w.run src c).2 := by
  have draws := h.run src c
  rcases w.run_cases src c with ⟨a, d, hrun, done⟩ | ⟨err, d, hrun, same⟩ <;> rw [hrun] at draws ⊢
  · exact ok a d done
  · exact .of_same draws same

end Write.DrawsOn

/-- Where the tables arise, a write that succeeds does deeds of this kind, and nothing else. -/
structure Write.DoesOnly {α : Type} (may : Deed → Prop) (w : Write α) : Prop where
  drawsOn : w.DrawsOn
  leadsBy : ∀ ⦃src : Source⦄ ⦃c d : Catalog⦄ ⦃a : α⦄, c.Arises → w src c = (.ok a, d) →
    c.LeadsBy src may d

namespace Write.DoesOnly

variable {α β : Type} {may may' : Deed → Prop}

theorem pure (a : α) : (pure a : Write α).DoesOnly may where
  drawsOn := .pure a
  leadsBy src c d b _ h := by
    obtain ⟨-, rfl⟩ := Write.pure_eq_ok.1 h
    exact .refl

theorem look (read : Store → Except CatalogError α) : (Store.look read).DoesOnly may where
  drawsOn := .look read
  leadsBy src c d a _ h := by
    obtain ⟨-, rfl⟩ := Store.look_eq_ok.1 h
    exact .refl

theorem bind {w : Write α} {f : α → Write β} (h : w.DoesOnly may) (h' : ∀ a, (f a).DoesOnly may) :
    (w >>= f).DoesOnly may where
  drawsOn := h.drawsOn.bind fun a => (h' a).drawsOn
  leadsBy src c e b arises hrun := by
    obtain ⟨a, d, first, second⟩ := Write.bind_eq_ok.1 hrun
    have before := h.leadsBy arises first
    exact before.trans ((h' a).leadsBy (arises.becomes before.becomes) second)

/-- A write that succeeds with a single deed. -/
theorem of_does {w : Write α} (drawsOn : w.DrawsOn)
    (does : ∀ {src c d a}, c.Arises → w src c = (.ok a, d) → ∃ k, may k ∧ c.Does src k d) :
    w.DoesOnly may where
  drawsOn := drawsOn
  leadsBy src c d a arises h := by
    obtain ⟨k, kind, does⟩ := does arises h
    exact .of_does kind does

theorem mono {w : Write α} (h : w.DoesOnly may) (wider : ∀ k, may k → may' k) :
    w.DoesOnly may' where
  drawsOn := h.drawsOn
  leadsBy _ _ _ _ arises hrun := (h.leadsBy arises hrun).mono wider

theorem run {w : Write α} (h : w.DoesOnly may) (src : Source) {c : Catalog} (arises : c.Arises) :
    c.LeadsBy src may (w.run src c).2 :=
  h.drawsOn.run_leadsBy fun _ _ => h.leadsBy arises

/-- The tables behind a write that succeeds arise, too. -/
theorem arises {w : Write α} (h : w.DoesOnly may) {src : Source} {c d : Catalog} {a : α}
    (arises : c.Arises) (ok : w src c = (.ok a, d)) : d.Arises :=
  arises.becomes (h.leadsBy arises ok).becomes

end Write.DoesOnly

end Biblio
