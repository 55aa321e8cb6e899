import Biblio.Proofs.Acceptance
import Biblio.Proofs.Frame

/-! Editgroups that race for an identity.

    Several editgroups update one identity from where it points now. The first one that is accepted
    moves the identity to a revision that was not there when it was staged, so that it points at
    the base of none of the others any more, and nothing but another acceptance moves it on. -/

namespace Biblio

namespace Operation

/-- The operation is about none of these editgroups, or it fails. -/
def LeavesAlone {α : Type} (op : Operation α) (src : Source) (c : Catalog)
    (groups : List EditgroupId) : Prop :=
  ∀ group ∈ groups, op.group? c.toStore = some group → ∃ err, op.answer src c = .error err

/-- The operation accepts no edit of this identity, or it fails. -/
def AcceptsNone {α : Type} (op : Operation α) (src : Source) (c : Catalog) (id : EntityId) :
    Prop :=
  ∀ group, op.accepted? = some group → (∃ e ∈ c.editsOf group, e.ident = id) →
    ∃ err, op.answer src c = .error err

end Operation

namespace Catalog

/-- The editgroup is open, and all it holds is an update of the identity, staged while the identity
    pointed where it points now. -/
def Races (src : Source) (c : Catalog) (x : Identity) (group : EditgroupId) : Prop :=
  (∃ view, c.getEditgroup group = .ok view ∧ view.status = .pending) ∧
    ∃ b body y e, Reachable src b ∧ b.identity? x.id = some y ∧
      y.revision = x.revision ∧ y.redirect = x.redirect ∧
      (Operation.updateEntity group x.id body).answer src b = .ok e ∧
      Leads src ((Operation.updateEntity group x.id body).after src b) c ∧
      c.editsOf group = [e]

/-- A run in which editgroups of a race for an identity are to be accepted, in the order of the
    list, while all other operations keep out of the race. -/
inductive Race (src : Source) (groups : List EditgroupId) (id : EntityId) (c : Catalog) :
    List EditgroupId → Catalog → Prop
  | start : Race src groups id c [] c
  | aside {tried : List EditgroupId} {d : Catalog} {α : Type} (op : Operation α)
    (h : Race src groups id c tried d) (alone : op.LeavesAlone src d groups)
    (none : op.AcceptsNone src d id) : Race src groups id c tried (op.after src d)
  | racer {tried : List EditgroupId} {d : Catalog} (group : EditgroupId) (mem : group ∈ groups)
    (h : Race src groups id c tried d) :
    Race src groups id c (tried ++ [group]) ((Operation.accept group).after src d)

end Catalog

namespace Store

/-- An editgroup that can be worked on, whose one edit moves an identity from where it points to a
    revision. -/
structure HoldsRacer (s : Store) (x : Identity) (group : EditgroupId) (e : Edit)
    (rev : RevisionId) : Prop where
  writable : s.HasWritable group
  only : s.editsOf group = [e]
  ident : e.ident = x.id
  base : e.base = x.pointer
  action : e.action = .update rev
  moves : x.revision ≠ some rev

/-- An update of an entity takes it from where it points to a new revision. -/
theorem Arises.updateEntity_eq_ok {src : Source} {b d : Catalog} (arises : b.Arises)
    {group : EditgroupId} {id : EntityId} {body : EntityBody} {e : Edit}
    (h : updateEntity group id body src b = (.ok e, d)) :
    ∃ y rev, b.identity? id = some y ∧ e.ident = id ∧ e.base = y.pointer ∧
      e.action = .update rev ∧ y.revision ≠ some rev := by
  obtain ⟨y, hy, h⟩ := look_bind_eq_ok.1 h
  obtain ⟨rev, b', created, h⟩ := Write.bind_eq_ok.1 h
  have there := (createRevision_does created).arises arises
  obtain ⟨-, new, -, rfl⟩ := createRevision_eq_ok.1 created
  obtain ⟨-, previous, action, z, ⟨hid, -⟩, may, -⟩ := stageEdit_existing there.keyed h
  obtain ⟨known, rfl⟩ := arises.keyed.getIdentity_eq_ok.1 hy
  obtain rfl : z = y := arises.keyed.identity_unique may.known known hid
  refine ⟨z, rev, arises.keyed.identity?_eq_some.2 ⟨known, rfl⟩, may.ident.symm, ?_, action, ?_⟩
  · exact may.base_eq (arises.isShaped z known) previous
  · intro same
    obtain ⟨r, hr, hid, -⟩ := (arises.grounded.identities z known).revision rev same
    exact new r hr hid

/-! ### One acceptance -/

section Accept
variable {d : Catalog} {x : Identity} {group : EditgroupId} {e : Edit} {rev : RevisionId}

theorem inApplicationOrder_singleton (e : Edit) : inApplicationOrder [e] = [e] := by
  cases h : e.action.isRedirect <;> simp [inApplicationOrder, h]

theorem HoldsRacer.inApplicationOrder_eq {s : Store} (h : s.HoldsRacer x group e rev) :
    inApplicationOrder (s.editsOf group) = [e] := by
  rw [h.only, inApplicationOrder_singleton]

theorem HoldsRacer.under_eq {s : Store} (h : s.HoldsRacer x group e rev) :
    x.under (s.editsOf group) = x.after (.update rev) := by
  have distinct : ([e].map (·.ident)).Nodup := List.nodup_singleton _
  rw [h.only, ← h.action]
  exact Identity.under_of_mem distinct (List.mem_singleton_self e) h.ident.symm

/-- While the identity points where it did, the editgroup is accepted. -/
theorem HoldsRacer.answer_accept (h : d.HoldsRacer x group e rev) (arises : d.Arises)
    (hx : x ∈ d.identities) (kept : x.isDeleted = false) (src : Source) :
    (∃ entry, (Operation.accept group).answer src d = .ok entry) ∧
      ∃ t t', ((Operation.accept group).after src d).toStore = d.accepted group t t' := by
  have takes : d.TakesAll (inApplicationOrder (d.editsOf group)) := by
    rw [h.inApplicationOrder_eq]
    refine ⟨⟨⟨x, hx, h.ident.symm, kept, h.base.symm⟩, fun target redirects => ?_⟩, trivial⟩
    rw [h.action] at redirects
    cases redirects
  rcases arises.answer_accept src group with ⟨ok, after, -⟩ | ⟨err, -, -, why⟩
  · exact ⟨⟨_, ok⟩, _, _, congrArg Catalog.toStore after⟩
  · rcases why with closed | ⟨-, done, f, rest, stops, -⟩
    · exact absurd h.writable closed
    · exact absurd takes (stops.not_takesAll arises.keyed)

/-- Once the identity points elsewhere, the editgroup is not accepted; if it can be worked on,
    because of a conflict. -/
theorem Arises.answer_accept_stale (arises : d.Arises) (hx : x ∈ d.identities)
    (only : d.editsOf group = [e]) (ident : e.ident = x.id) (action : e.action = .update rev)
    (stale : x.pointer ≠ e.base) (src : Source) :
    ((Operation.accept group).after src d).toStore = d.toStore ∧
      ∃ err, (Operation.accept group).answer src d = .error err ∧
        (d.HasWritable group → ∃ how, err = .conflict x.id how) := by
  have order : inApplicationOrder (d.editsOf group) = [e] := by
    rw [only, inApplicationOrder_singleton]
  rcases arises.answer_accept src group with ⟨-, -, -, takes⟩ | ⟨err, error, same, why⟩
  · rw [order] at takes
    obtain ⟨y, hy, fits⟩ := takes.1.fits
    obtain rfl := arises.keyed.identity_unique hy hx (fits.ident.trans ident)
    exact absurd fits.base stale
  · refine ⟨same, err, error, fun writable => ?_⟩
    rcases why with closed | ⟨-, done, f, rest, stops, refused⟩
    · exact absurd writable closed
    · have hf : f ∈ [e] := by rw [← order, stops.order]; simp
      obtain rfl := List.mem_singleton.1 hf
      rcases refused with ⟨how, rfl⟩ | ⟨redirects, -⟩
      · exact ⟨how, by rw [ident]⟩
      · simp [action, EditAction.isRedirect] at redirects

end Accept

/-! ### The race -/

/-- The edits of the first one of these editgroups. -/
def editsOfFirst (s : Store) : List EditgroupId → List Edit
  | [] => []
  | group :: _ => s.editsOf group

/-- What a race leaves of these tables: all editgroups in it are there with their edits, all but the
    first one as they were; and the identity is what the first one makes of it. -/
structure Racing (s t : Store) (groups : List EditgroupId) (x : Identity)
    (tried : List EditgroupId) : Prop where
  edits : ∀ group ∈ groups, t.editsOf group = s.editsOf group
  rows : ∀ group ∈ groups, ∃ g ∈ t.editgroups, g.id = group ∧
    (tried.head? = some group ∨ g ∈ s.editgroups)
  ident : x.under (s.editsOfFirst tried) ∈ t.identities
  first : ∀ group, tried.head? = some group → group ∈ groups

section Racing
variable {s : Store} {d : Catalog} {groups tried : List EditgroupId} {x : Identity}
  {group : EditgroupId} {e : Edit} {rev : RevisionId}

theorem Racing.start (hx : x ∈ s.identities)
    (there : ∀ group ∈ groups, ∃ g ∈ s.editgroups, g.id = group) : s.Racing s groups x [] where
  edits _ _ := rfl
  rows group mem := (there group mem).imp fun _ ⟨hg, hid⟩ => ⟨hg, hid, .inr hg⟩
  ident := hx
  first _ h := nomatch h

/-- An editgroup that is not the first one can be worked on if it could be. -/
theorem Racing.hasWritable (racing : s.Racing d.toStore groups x tried) (keyed : s.Keyed)
    (mem : group ∈ groups) (writable : s.HasWritable group) (notFirst : tried.head? ≠ some group) :
    d.HasWritable group := by
  obtain ⟨g, hg, hid, first | same⟩ := racing.rows group mem
  · exact absurd first notFirst
  · obtain ⟨g', hg', hid', pending, legible⟩ := writable
    obtain rfl := keyed.editgroup_unique same hg' (hid.trans hid'.symm)
    exact ⟨g, hg, hid, pending, legible⟩

theorem Racing.holdsRacer (racing : s.Racing d.toStore groups x tried) (keyed : s.Keyed)
    (mem : group ∈ groups) (holds : s.HoldsRacer x group e rev)
    (notFirst : tried.head? ≠ some group) : d.HoldsRacer x group e rev :=
  { holds with
    writable := racing.hasWritable keyed mem holds.writable notFirst
    only := (racing.edits group mem).trans holds.only }

/-- The first one moved the identity. -/
theorem Racing.mem_identities {t : Store} {first : EditgroupId} {later : List EditgroupId}
    (racing : s.Racing t groups x (first :: later)) (won : s.HoldsRacer x first e rev) :
    x.after (.update rev) ∈ t.identities := by
  have there := racing.ident
  rwa [editsOfFirst, won.under_eq] at there

/-- Once there was a first one, no editgroup is accepted any more. -/
theorem Racing.answer_accept_cons {first : EditgroupId} {later : List EditgroupId}
    (racing : s.Racing d.toStore groups x (first :: later)) (arises : d.Arises)
    {e' : Edit} {rev' : RevisionId} (won : s.HoldsRacer x first e' rev') (mem : group ∈ groups)
    (holds : s.HoldsRacer x group e rev) (src : Source) :
    ((Operation.accept group).after src d).toStore = d.toStore ∧
      ∃ err, (Operation.accept group).answer src d = .error err ∧
        (d.HasWritable group → ∃ how, err = .conflict x.id how) := by
  -- the identity cannot be back at the base: it did not have the revision of the first one there
  have stale : (x.after (.update rev')).pointer ≠ e.base := by
    rw [holds.base]
    exact fun same => won.moves (congrArg Prod.fst same).symm
  have only : d.editsOf group = [e] := (racing.edits group mem).trans holds.only
  have ident : e.ident = (x.after (.update rev')).id :=
    holds.ident.trans (Identity.after_id x _).symm
  have loses := arises.answer_accept_stale (racing.mem_identities won) only ident holds.action
    stale src
  rwa [Identity.after_id] at loses

/-- What keeps out of the race changes nothing about it. -/
theorem Racing.aside (racing : s.Racing d.toStore groups x tried) (arises : d.Arises)
    {src : Source} {α : Type} (op : Operation α) (alone : op.LeavesAlone src d groups)
    (none : op.AcceptsNone src d x.id) :
    s.Racing (op.after src d).toStore groups x tried := by
  -- what fails on an editgroup changes nothing, and what succeeds is about none in the race
  by_cases failed : ∃ group err, op.group? d.toStore = some group ∧ op.answer src d = .error err
  · obtain ⟨group, err, named, error⟩ := failed
    rwa [after_of_error op named error]
  have spares := arises.after_sparesGroups src op
  have other : ∀ group ∈ groups, op.group? d.toStore ≠ some group := by
    intro group mem named
    obtain ⟨err, error⟩ := alone group mem named
    exact failed ⟨group, err, named, error⟩
  constructor
  · intro group mem
    obtain ⟨g, hg, rfl, -⟩ := racing.rows group mem
    exact (spares.edits g hg (Operation.not_allocatesIn hg (other g.id mem))).trans
      (racing.edits g.id mem)
  · intro group mem
    obtain ⟨g, hg, rfl, first⟩ := racing.rows group mem
    exact ⟨g, spares.editgroups g hg (Operation.not_allocatesIn hg (other g.id mem)), rfl, first⟩
  · refine arises.after_identity src op racing.ident fun group accepts e he same => failed ?_
    obtain ⟨err, error⟩ := none group accepts ⟨e, he, same.trans (Identity.under_id _ x)⟩
    exact ⟨group, err, Operation.group?_of_accepted? accepts d.toStore, error⟩
  · exact racing.first

/-- The first one is accepted, and moves the identity; for all others the race goes on as it was. -/
theorem Racing.racer (racing : s.Racing d.toStore groups x tried) (keyed : s.Keyed)
    (arises : d.Arises) (kept : x.isDeleted = false)
    (racers : ∀ group ∈ groups, ∃ e rev, s.HoldsRacer x group e rev) (mem : group ∈ groups)
    (src : Source) :
    s.Racing ((Operation.accept group).after src d).toStore groups x (tried ++ [group]) := by
  obtain ⟨e, rev, holds⟩ := racers group mem
  cases tried with
  | nil =>
    have here := racing.holdsRacer keyed mem holds (by simp)
    obtain ⟨-, t, t', after⟩ := here.answer_accept arises racing.ident kept src
    rw [after]
    constructor
    · exact racing.edits
    · intro other mem'
      obtain ⟨g, hg, rfl, first | same⟩ := racing.rows other mem'
      · cases first
      · by_cases hid : g.id = group
        · exact ⟨_, mem_closed_editgroups.2 (.inr ⟨g, hg, hid, rfl⟩), rfl, .inl (by simp [hid])⟩
        · exact ⟨g, mem_closed_editgroups.2 (.inl ⟨hg, hid⟩), rfl, .inr same⟩
    · refine List.mem_map.2 ⟨x, racing.ident, ?_⟩
      rw [here.inApplicationOrder_eq, ← holds.only]
      rfl
    · rintro _ ⟨⟩
      exact mem
  | cons first later =>
    obtain ⟨e', rev', won⟩ := racers first (racing.first first rfl)
    rw [(racing.answer_accept_cons arises won mem holds src).1]
    exact { racing with }

end Racing

end Store

namespace Catalog

section Race
variable {src : Source} {c d : Catalog} {x : Identity} {groups tried : List EditgroupId}
  {group : EditgroupId}

theorem Races.holdsRacer (races : c.Races src x group) (arises : c.Arises) :
    ∃ e rev, c.HoldsRacer x group e rev := by
  obtain ⟨⟨view, read, pending⟩, b, body, y, e, reachable, hy, revision, redirect, staged, -,
    only⟩ := races
  cases hrun : (Store.updateEntity group x.id body).run src b with
  | mk result b' =>
    obtain rfl : result = .ok e := (congrArg Prod.fst hrun).symm.trans staged
    obtain ⟨y', rev, hy', ident, base, action, moves⟩ :=
      reachable.arises.updateEntity_eq_ok (Write.run_eq_ok.1 hrun)
    obtain rfl := Option.some.inj (hy.symm.trans hy')
    have pointer : y.pointer = x.pointer := Prod.ext revision redirect
    exact ⟨e, rev, arises.keyed.hasWritable_of_pending read pending, only, ident,
      base.trans pointer, action, revision ▸ moves⟩

/-- Every step of a race leaves of the tables what the race is about. -/
theorem Race.racing (race : Race src groups x.id c tried d) (arises : c.Arises)
    (hx : x ∈ c.identities) (kept : x.isDeleted = false)
    (racers : ∀ group ∈ groups, ∃ e rev, c.HoldsRacer x group e rev) :
    d.Arises ∧ c.Racing d.toStore groups x tried := by
  induction race with
  | start =>
    refine ⟨arises, .start hx fun group mem => ?_⟩
    obtain ⟨e, rev, holds⟩ := racers group mem
    obtain ⟨g, hg, hid, -⟩ := holds.writable
    exact ⟨g, hg, hid⟩
  | aside op _ alone none ih =>
    exact ⟨ih.1.after src op, ih.2.aside ih.1 op alone none⟩
  | racer group mem _ ih =>
    exact ⟨ih.1.after src (.accept group), ih.2.racer arises.keyed ih.1 kept racers mem src⟩

end Race

/-- Exactly one of the editgroups that race for an identity wins: the first one that is to be
    accepted is accepted, and its revision is the current one from then on; each of the others
    meets a conflict and stays open, and nothing changes. -/
theorem Reachable.first_racer_wins {src : Source} {c : Catalog} (h : Reachable src c)
    {x : Identity} (hx : x ∈ c.identities) (live : x.isLive = true) (kept : x.isDeleted = false)
    {groups : List EditgroupId} (races : ∀ group ∈ groups, c.Races src x group)
    {tried : List EditgroupId} {d : Catalog} (race : Race src groups x.id c tried d)
    {group : EditgroupId} (mem : group ∈ groups) :
    (tried = [] → ∃ entry e rev, (Operation.accept group).answer src d = .ok entry ∧
        c.editsOf group = [e] ∧ e.action = .update rev ∧
        ((Operation.accept group).after src d).identity? x.id =
          some { x with revision := some rev, redirect := none }) ∧
      ∀ first later, tried = first :: later →
        (∃ e rev, c.editsOf first = [e] ∧ e.action = .update rev ∧
          d.identity? x.id = some { x with revision := some rev, redirect := none }) ∧
        (group ≠ first →
          (∃ how, (Operation.accept group).answer src d = .error (.conflict x.id how)) ∧
            ((Operation.accept group).after src d).toStore = d.toStore ∧
            ∃ view, ((Operation.accept group).after src d).getEditgroup group = .ok view ∧
              view.status = .pending) := by
  have racers := fun group mem => (races group mem).holdsRacer h.arises
  obtain ⟨e, rev, holds⟩ := racers group mem
  obtain ⟨there, racing⟩ := race.racing h.arises hx kept racers
  have current : ∀ {d : Catalog} {first later} {e rev}, d.Arises →
      c.Racing d.toStore groups x (first :: later) → c.HoldsRacer x first e rev →
      d.identity? x.id = some { x with revision := some rev, redirect := none } := by
    intro d first later e rev there racing won
    have moved := racing.mem_identities won
    rw [Identity.after, ← live] at moved
    exact there.keyed.identity?_eq_some.2 ⟨moved, rfl⟩
  constructor
  · rintro rfl
    have here := racing.holdsRacer h.arises.keyed mem holds (by simp)
    obtain ⟨⟨entry, ok⟩, -⟩ := here.answer_accept there racing.ident kept src
    obtain ⟨there', racing'⟩ := (race.racer group mem).racing h.arises hx kept racers
    exact ⟨entry, e, rev, ok, holds.only, holds.action, current there' racing' holds⟩
  · rintro first later rfl
    obtain ⟨e', rev', won⟩ := racers first (racing.first first rfl)
    obtain ⟨same, err, error, conflict⟩ := racing.answer_accept_cons there won mem holds src
    refine ⟨⟨e', rev', won.only, won.action, current there racing won⟩, fun other => ?_⟩
    have writable := racing.hasWritable h.arises.keyed mem holds.writable
      (by simpa using other.symm)
    obtain ⟨how, rfl⟩ := conflict writable
    exact ⟨⟨how, error⟩, same, same ▸ there.keyed.pending_of_hasWritable writable⟩

/-- Whether an editgroup races for an identity can be told from the runs before and behind the
    update. -/
theorem Races.of_run {src : Source} {b c : Catalog} {x : Identity} {group : EditgroupId}
    (body : EntityBody) (reachable : Reachable src b)
    (run : Leads src ((Operation.updateEntity group x.id body).after src b) c)
    (unmoved : (b.identity? x.id).map (·.pointer) = some x.pointer)
    (writable : (c.getEditgroup group).map (·.status) = .ok .pending)
    (staged : ((Operation.updateEntity group x.id body).answer src b).map ([·]) =
      .ok (c.editsOf group)) :
    c.Races src x group := by
  constructor
  · cases read : c.getEditgroup group with
    | error err => rw [read] at writable; cases writable
    | ok view =>
      rw [read] at writable
      exact ⟨view, rfl, Except.ok.inj writable⟩
  · obtain ⟨y, hy, pointer⟩ := Option.map_eq_some_iff.1 unmoved
    obtain ⟨revision, redirect⟩ := Prod.mk.inj pointer
    cases answer : (Operation.updateEntity group x.id body).answer src b with
    | error err => rw [answer] at staged; cases staged
    | ok e =>
      rw [answer] at staged
      exact ⟨b, body, y, e, reachable, hy, revision, redirect, answer, run,
        (Except.ok.inj staged).symm⟩

/-- A work and an editgroup. -/
def uncontested : Catalog := Catalog.empty.play .counting [
  ⟨.createEditor "someone"⟩, ⟨.autoaccept (.nth 0) (.work {})⟩,
  ⟨.createEditgroup (.nth 0) none .empty⟩]

/-- The work is updated in that editgroup, and another one is made. -/
def challenged : Catalog := uncontested.play .counting [
  ⟨.updateEntity (.nth 5) (.nth 3) (.work {})⟩, ⟨.createEditgroup (.nth 0) none .empty⟩]

/-- The work is updated in the other editgroup, too. -/
def contested : Catalog := challenged.play .counting [
  ⟨.updateEntity (.nth 8) (.nth 3) (.work {})⟩]

/-- The editgroups in the race. -/
def contenders : List EditgroupId := [.nth 5, .nth 8]

/-- The editgroup made last is accepted, and an editor is created. -/
def settled : Catalog := contested.play .counting [⟨.accept (.nth 8)⟩, ⟨.createEditor "other"⟩]

theorem contested_first_racer_wins :
    (∃ entry, (Operation.accept (.nth 8)).answer .counting contested = .ok entry) ∧
      (∃ x, settled.identity? (.nth 3) = some x ∧ x.revision = some (.nth 9)) ∧
      (∃ how, (Operation.accept (.nth 5)).answer .counting settled =
        .error (.conflict (.nth 3) how)) ∧
      ((Operation.accept (.nth 5)).after .counting settled).toStore = settled.toStore := by
  have reachable : Reachable .counting uncontested := leads_play ..
  have reachable' : Reachable .counting challenged := reachable.trans (leads_play ..)
  have run : Leads .counting challenged contested := leads_play ..
  obtain ⟨x, hx, hid, live, kept, pointer⟩ : ∃ x ∈ contested.identities, x.id = .nth 3 ∧
      x.isLive = true ∧ x.isDeleted = false ∧ x.pointer = (some (.nth 2), none) := by
    decide +kernel
  have races : ∀ group ∈ contenders, contested.Races .counting x group := by
    refine List.forall_mem_cons.2 ⟨?_, List.forall_mem_singleton.2 ?_⟩
    · refine Races.of_run (.work {}) reachable ?_ ?_ ?_ ?_
      · refine Leads.trans ?_ run
        rw [hid, challenged, play_cons]
        exact leads_play ..
      · rw [hid, pointer]
        decide +kernel
      · decide +kernel
      · rw [hid]
        decide +kernel
    · refine Races.of_run (.work {}) reachable' ?_ ?_ ?_ ?_
      · rw [hid, contested, play_cons, play_nil]
        exact .stay
      · rw [hid, pointer]
        decide +kernel
      · decide +kernel
      · rw [hid]
        decide +kernel
  have early : .nth 5 ∈ contenders := by decide +kernel
  have late : .nth 8 ∈ contenders := by decide +kernel
  have race : Race .counting contenders x.id contested [.nth 8] settled :=
    (Race.start.racer (.nth 8) late).aside (.createEditor "other")
      (fun _ _ h => nomatch h) (fun _ h => nomatch h)
  obtain ⟨first, -⟩ := Reachable.first_racer_wins (reachable'.trans run) hx live kept races .start
    late
  obtain ⟨-, later⟩ := Reachable.first_racer_wins (reachable'.trans run) hx live kept races race
    early
  obtain ⟨entry, -, -, ok, -⟩ := first rfl
  obtain ⟨⟨e, rev, only, action, current⟩, loses⟩ := later _ _ rfl
  obtain ⟨conflict, same, -⟩ := loses (by decide +kernel)
  have brings : (contested.editsOf (.nth 8)).map (·.action) = [.update (.nth 9)] := by
    decide +kernel
  rw [only, List.map_singleton, action] at brings
  obtain rfl := EditAction.update.inj (List.cons.inj brings).1
  rw [hid] at current conflict
  exact ⟨⟨entry, ok⟩, ⟨_, current, rfl⟩, conflict, same⟩

end Catalog

end Biblio
