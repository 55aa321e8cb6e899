import Biblio.Catalog.Entities
import Biblio.Catalog.Handle

/-! Everything that can be done with a catalog, and the catalogs that this leads to.

    An operation that fails leaves the tables as they were. Several handles may take turns:
    operations do not overlap, so a run of a catalog is a list of operations, whoever asked for
    them. -/

namespace Biblio

/-- An operation that may change a catalog, with its arguments; it answers a value of the type. -/
inductive Operation : Type → Type where
  | openCatalog (settings : Settings) : Operation Handle
  | createEditor (username : String) : Operation Editor
  | activeEditgroup (editor : EditorId) : Operation EditgroupId
  | createEditgroup (editor : EditorId) (description : Option String) (extra : Extra) :
    Operation EditgroupId
  | createRevision (body : EntityBody) : Operation RevisionId
  | stageEdit (group : EditgroupId) (target : EditTarget) (previous : Option RevisionId)
    (action : EditAction) : Operation Edit
  | removeEdit (id : EditId) : Operation Edit
  | accept (group : EditgroupId) : Operation ChangelogEntry
  | abandon (group : EditgroupId) : Operation Unit
  | createEntity (group : EditgroupId) (body : EntityBody) : Operation Edit
  | updateEntity (group : EditgroupId) (id : EntityId) (body : EntityBody) : Operation Edit
  | deleteEntity (group : EditgroupId) (id : EntityId) : Operation Edit
  | redirectEntity (group : EditgroupId) (id target : EntityId) : Operation Edit
  | autoaccept (editor : EditorId) (body : EntityBody) : Operation (EntityId × ChangelogEntry)

namespace Operation

/-- Carries out an operation: its answer or failure, and the catalog behind it. -/
def perform {α : Type} (op : Operation α) (src : Source) (c : Catalog) :
    Except CatalogError α × Catalog :=
  match op with
  | openCatalog settings => (Handle.openWith settings).run src c
  | createEditor username => (Store.createEditor username false false).run src c
  | activeEditgroup editor => (Store.activeEditgroup editor).run src c
  | createEditgroup editor description extra =>
    (Store.createEditgroup editor description extra).run src c
  | createRevision body => (Store.createRevision body).run src c
  | stageEdit group target previous action =>
    (Store.stageEdit group target previous action).run src c
  | removeEdit id => (Store.removeEdit id).run src c
  | accept group => (Store.accept group).run src c
  | abandon group => (Store.abandon group).run src c
  | createEntity group body => (Store.createEntity group body).run src c
  | updateEntity group id body => (Store.updateEntity group id body).run src c
  | deleteEntity group id => (Store.deleteEntity group id).run src c
  | redirectEntity group id target => (Store.redirectEntity group id target).run src c
  | autoaccept editor body => Store.autoaccept editor body src c

/-- What an operation answers. -/
def answer {α : Type} (op : Operation α) (src : Source) (c : Catalog) : Except CatalogError α :=
  (op.perform src c).1

/-- The catalog behind an operation. -/
def after {α : Type} (op : Operation α) (src : Source) (c : Catalog) : Catalog :=
  (op.perform src c).2

end Operation

/-- An operation, whatever it answers. -/
structure Event where
  {α : Type}
  operation : Operation α

namespace Catalog

/-- The catalog behind operations that follow each other. -/
def play (src : Source) (events : List Event) (c : Catalog) : Catalog :=
  events.foldl (fun c e => e.operation.after src c) c

@[simp] theorem play_nil (src : Source) (c : Catalog) : c.play src [] = c := rfl

theorem play_cons (src : Source) (e : Event) (events : List Event) (c : Catalog) :
    c.play src (e :: events) = (e.operation.after src c).play src events := rfl

/-- One run after another is one run. -/
theorem play_append (src : Source) (first second : List Event) (c : Catalog) :
    c.play src (first ++ second) = (c.play src first).play src second :=
  List.foldl_append

/-- A catalog that operations lead to from another one. -/
inductive Leads (src : Source) (c : Catalog) : Catalog → Prop where
  | stay : Leads src c c
  | go {d : Catalog} {α : Type} (op : Operation α) (h : Leads src c d) :
    Leads src c (op.after src d)

/-- A catalog that operations lead to from an empty one. -/
abbrev Reachable (src : Source) (c : Catalog) : Prop := Leads src .empty c

theorem Leads.trans {src : Source} {c d e : Catalog} (h : Leads src c d) (h' : Leads src d e) :
    Leads src c e := by
  induction h' with
  | stay => exact h
  | go op _ ih => exact ih.go op

theorem leads_play (src : Source) (events : List Event) (c : Catalog) :
    Leads src c (c.play src events) := by
  induction events generalizing c with
  | nil => exact .stay
  | cons e events ih => exact (Leads.stay.go e.operation).trans (ih _)

end Catalog

/-- The first identifiers that a source gives differ from each other. -/
def Source.IsFresh (src : Source) (count : Nat) : Prop :=
  ∀ i j, i < count → j < count → src.id i = src.id j → i = j

/-- The first times that a source gives grow. -/
def Source.IsIncreasing (src : Source) (count : Nat) : Prop :=
  ∀ i j, i < j → j < count → (src.time i).ordinal < (src.time j).ordinal

theorem Source.IsFresh.mono {src : Source} {m n : Nat} (h : src.IsFresh n) (le : m ≤ n) :
    src.IsFresh m :=
  fun i j hi hj => h i j (Nat.lt_of_lt_of_le hi le) (Nat.lt_of_lt_of_le hj le)

theorem Source.IsIncreasing.mono {src : Source} {m n : Nat} (h : src.IsIncreasing n) (le : m ≤ n) :
    src.IsIncreasing m :=
  fun i j hij hj => h i j hij (Nat.lt_of_lt_of_le hj le)

end Biblio
