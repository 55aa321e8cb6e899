import Biblio.Store.Basic

/-! Writing to the tables of a catalog.

    A write either succeeds, with new tables, or fails and leaves the tables as they were. The store
    refuses rows that refer to something that is not there, values that have to be unique and are
    there already, and identities that point at two things. Identifiers and times are drawn from a
    source outside; what a failed write drew is not drawn again. -/

namespace Biblio

/-- Where new identifiers and times come from, counted from the first one drawn. -/
structure Source where
  id : Nat → Uuid
  time : Nat → Instant

/-- A catalog: its tables, and how much was drawn from its source so far. -/
structure Catalog extends Store where
  /-- How many identifiers were drawn. -/
  drawn : Nat := 0
  /-- How often the clock was read. -/
  ticks : Nat := 0
  deriving DecidableEq

/-- A catalog that holds nothing, before anything was drawn. -/
def Catalog.empty : Catalog := {}

/-- The catalog with other tables. -/
def Catalog.withStore (c : Catalog) (s : Store) : Catalog := { c with toStore := s }

/-- A change of a catalog with a result, or a failure on the way. -/
abbrev Write (α : Type) := ReaderT Source (ExceptT CatalogError (StateM Catalog)) α

/-- The result of a write with the catalog behind it: after a failure with the tables before it. -/
def Write.run {α : Type} (w : Write α) (src : Source) (c : Catalog) :
    Except CatalogError α × Catalog :=
  match w src c with
  | (.ok a, d) => (.ok a, d)
  | (.error e, d) => (.error e, d.withStore c.toStore)

/-- A failed write leaves the tables as they were. -/
theorem Write.run_error {α : Type} {w : Write α} {src : Source} {c : Catalog} {e : CatalogError}
    (h : (w.run src c).1 = .error e) : (w.run src c).2.toStore = c.toStore := by
  simp only [run] at h ⊢
  split at h
  · cases h
  · rfl

/-- A write succeeds with all that it did on the way. -/
theorem Write.run_eq_ok {α : Type} {w : Write α} {src : Source} {c d : Catalog} {a : α} :
    w.run src c = (.ok a, d) ↔ w src c = (.ok a, d) := by
  unfold run
  rcases w src c with ⟨_ | _, _⟩
  · constructor <;> exact fun h => by cases h
  · exact Iff.rfl

/-- A write either succeeds, or fails and leaves the tables as they were. -/
theorem Write.run_cases {α : Type} (w : Write α) (src : Source) (c : Catalog) :
    (∃ a d, w.run src c = (.ok a, d) ∧ w src c = (.ok a, d)) ∨
      ∃ e d, w.run src c = (.error e, d) ∧ d.toStore = c.toStore := by
  unfold run
  rcases w src c with ⟨e | a, d⟩
  · exact .inr ⟨e, _, rfl, rfl⟩
  · exact .inl ⟨a, d, rfl, rfl⟩

/-- Two writes one after the other succeed when each does. -/
theorem Write.bind_eq_ok {α β : Type} {w : Write α} {f : α → Write β} {src : Source}
    {c e : Catalog} {b : β} :
    (w >>= f) src c = (.ok b, e) ↔ ∃ a d, w src c = (.ok a, d) ∧ f a src d = (.ok b, e) := by
  change (w src c >>= fun p : Except CatalogError α × Catalog =>
    ExceptT.bindCont (fun a => f a src) p.1 p.2 : Id _) = _ ↔ _
  rcases w src c with ⟨_ | a, d⟩
  · constructor
    · exact fun h => by cases h
    · exact fun ⟨_, _, h, _⟩ => by cases h
  · constructor
    · exact fun h => ⟨a, d, rfl, h⟩
    · rintro ⟨_, _, h, h'⟩
      cases h
      exact h'

/-- A value on its own changes nothing. -/
theorem Write.pure_eq_ok {α : Type} {a b : α} {src : Source} {c d : Catalog} :
    (pure a : Write α) src c = (.ok b, d) ↔ a = b ∧ c = d := by
  change (Except.ok a, c) = (Except.ok b, d) ↔ _
  simp

namespace Store

/-- What a reader makes of the tables as they are now. -/
def look {α : Type} (read : Store → Except CatalogError α) : Write α := fun _ c =>
  (read c.toStore, c)

/-- A refusal unless the condition holds. -/
def demand (condition : Store → Bool) (refusal : Refusal) : Write Unit := fun _ c =>
  (if condition c.toStore then .ok () else .error (.storage refusal), c)

/-- Changes the tables. -/
def alter (change : Store → Store) : Write Unit := fun _ c =>
  (.ok (), c.withStore (change c.toStore))

/-- Draws an identifier. -/
def drawId (kind : IdentKind) : Write (Ident kind) := fun src c =>
  (.ok ⟨src.id c.drawn⟩, { c with drawn := c.drawn + 1 })

/-- Reads the clock. -/
def drawTime : Write Instant := fun src c =>
  (.ok (src.time c.ticks), { c with ticks := c.ticks + 1 })

/-- An option is empty, or there is a row for what it holds. -/
def holds {α β : Type} (find? : α → Option β) (a : Option α) : Bool :=
  a.all fun a => (find? a).isSome

/-- Looking changes nothing. -/
theorem look_eq_ok {α : Type} {read : Store → Except CatalogError α} {src : Source}
    {c d : Catalog} {a : α} :
    look read src c = (.ok a, d) ↔ read c.toStore = .ok a ∧ c = d := by
  change (read c.toStore, c) = _ ↔ _
  simp

theorem demand_eq_ok {condition : Store → Bool} {refusal : Refusal} {src : Source} {c d : Catalog}
    {u : Unit} :
    demand condition refusal src c = (.ok u, d) ↔ condition c.toStore = true ∧ c = d := by
  change ((if condition c.toStore then _ else _), c) = _ ↔ _
  cases condition c.toStore <;> simp

theorem alter_eq_ok {change : Store → Store} {src : Source} {c d : Catalog} {u : Unit} :
    alter change src c = (.ok u, d) ↔ c.withStore (change c.toStore) = d := by
  change (Except.ok (), c.withStore (change c.toStore)) = _ ↔ _
  simp

theorem drawId_eq_ok {kind : IdentKind} {src : Source} {c d : Catalog} {id : Ident kind} :
    drawId kind src c = (.ok id, d) ↔
      ⟨src.id c.drawn⟩ = id ∧ { c with drawn := c.drawn + 1 } = d := by
  change (Except.ok (⟨src.id c.drawn⟩ : Ident kind), { c with drawn := c.drawn + 1 }) = _ ↔ _
  simp

theorem drawTime_eq_ok {src : Source} {c d : Catalog} {now : Instant} :
    drawTime src c = (.ok now, d) ↔
      src.time c.ticks = now ∧ { c with ticks := c.ticks + 1 } = d := by
  change (Except.ok (src.time c.ticks), { c with ticks := c.ticks + 1 }) = _ ↔ _
  simp

/-! ### Insertion -/

/-- Inserts an editor. -/
def insertEditor (e : Editor) : Write Unit := do
  demand (fun s => (s.editor? e.id).isNone && (s.editorNamed? e.username).isNone) .duplicate
  alter fun s => { s with editors := s.editors ++ [e] }

/-- Inserts an editgroup. -/
def insertEditgroup (g : EditgroupRow) : Write Unit := do
  demand (fun s => (s.editgroupRow? g.id).isNone) .duplicate
  demand (fun s => (s.editor? g.editor).isSome) .danglingReference
  alter fun s => { s with editgroups := s.editgroups ++ [g] }

/-- Inserts a revision. -/
def insertRevision (r : RevisionRow) : Write Unit := do
  demand (fun s => (s.revisionRow? r.id).isNone) .duplicate
  alter fun s => { s with revisions := s.revisions ++ [r] }

/-- An identity does not point at a revision and redirect at once. -/
def demandOnePointer (x : Identity) : Write Unit :=
  demand (fun _ => x.revision.isNone || x.redirect.isNone) .twoPointers

/-- Inserts an identity. -/
def insertIdentity (x : Identity) : Write Unit := do
  demandOnePointer x
  demand (fun s => (s.identity? x.id).isNone) .duplicate
  demand (fun s => holds s.revisionRow? x.revision && holds s.identity? x.redirect)
    .danglingReference
  alter fun s => { s with identities := s.identities ++ [x] }

/-- Inserts an edit; an editgroup has at most one for each identity. -/
def insertEdit (e : Edit) : Write Unit := do
  demand (fun s => (s.edit? e.id).isNone && (s.pendingEdit? e.editgroup e.ident).isNone) .duplicate
  demand (fun s => (s.editgroupRow? e.editgroup).isSome && (s.identity? e.ident).isSome
    && holds s.revisionRow? e.previousRevision && holds s.identity? e.previousRedirect
    && holds s.revisionRow? e.action.revision? && holds s.identity? e.action.target?)
    .danglingReference
  alter fun s => { s with edits := s.edits ++ [e] }

/-- Inserts a changelog entry; an editgroup has at most one. -/
def insertChangelogEntry (x : ChangelogEntry) : Write Unit := do
  demand (fun s => (s.changelogEntry? x.seq).isNone && (s.changelogOf? x.editgroup).isNone)
    .duplicate
  demand (fun s => (s.editgroupRow? x.editgroup).isSome) .danglingReference
  alter fun s => { s with changelog := s.changelog ++ [x] }

/-! ### Change -/

/-- The rows, with the change made to those that pass the test. -/
def changeWhere {α : Type} (test : α → Bool) (change : α → α) (rows : List α) : List α :=
  rows.map fun row => if test row then change row else row

/-- Puts an identity in the place of the one with its identifier. -/
def replaceIdentity (x : Identity) : Write Unit := do
  demandOnePointer x
  demand (fun s => holds s.revisionRow? x.revision && holds s.identity? x.redirect)
    .danglingReference
  alter fun s => { s with identities := changeWhere (·.id == x.id) (fun _ => x) s.identities }

/-- Closes an editgroup, and takes it away from the editor who was working on it. -/
def closeEditgroup (id : EditgroupId) (status : EditgroupStatus) (closed : Instant) : Write Unit :=
  alter fun s => { s with
    editgroups := changeWhere (·.id == id)
      (fun g => { g with status, closedAt := some closed }) s.editgroups
    editors := changeWhere (·.activeEditgroup == some id)
      (fun e => { e with activeEditgroup := none }) s.editors }

/-- Makes an editgroup the one that an editor is working on. -/
def setActiveEditgroup (editor : EditorId) (group : EditgroupId) : Write Unit :=
  alter fun s => { s with
    editors := changeWhere (·.id == editor)
      (fun e => { e with activeEditgroup := some group }) s.editors }

/-- Takes an edit away. -/
def deleteEdit (id : EditId) : Write Unit :=
  alter fun s => { s with edits := s.edits.filter (·.id != id) }

end Store

end Biblio
