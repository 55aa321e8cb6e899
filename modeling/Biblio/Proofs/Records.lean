import Biblio.Proofs.RoundTrip
import Biblio.Proofs.WrittenTimes
import Biblio.Record.Codec

/-! Records and their JSON.

    The decoder of a record takes the members of the object that the record is written as, each by
    its own decoder, and an option from null or from what its value is written as. An action and an
    external identifier are told by a tag in front. So every record is read back from its text, if
    there are no doubles in its metadata and not too many brackets. -/

namespace Biblio

open Json Json.Decoder

namespace Json

/-! ### Texts that are read back exactly -/

/-- There are no doubles in the value, and no more brackets around anything in it than this. -/
structure IsExact (n : Nat) (j : Json) : Prop where
  integral : j.IsIntegral
  depth_le : j.depth ≤ n

section Exact
variable {α : Type} {m n : Nat}

theorem IsExact.mono {j : Json} (h : j.IsExact m) (le : m ≤ n) : j.IsExact n :=
  ⟨h.integral, h.depth_le.trans le⟩

@[simp] theorem isExact_null : IsExact n .null := ⟨trivial, Nat.zero_le n⟩

@[simp] theorem isExact_str (s : String) : IsExact n (.str s) := ⟨trivial, Nat.zero_le n⟩

@[simp] theorem isExact_bool (b : Bool) : IsExact n (.bool b) := ⟨trivial, Nat.zero_le n⟩

@[simp] theorem isExact_ofInt (i : Int) : IsExact n (.ofInt i) := ⟨trivial, Nat.zero_le n⟩

@[simp] theorem isExact_ofOption {write : α → Json} {v : Option α} :
    IsExact n (.ofOption write v) ↔ ∀ a ∈ v, (write a).IsExact n := by
  cases v with
  | none => simp [ofOption]
  | some a => simp [ofOption]

theorem isExact_items {items : List Json} :
    AllIntegral items ∧ itemsDepth items ≤ n ↔ ∀ j ∈ items, j.IsExact n := by
  induction items with
  | nil => simp [AllIntegral, itemsDepth]
  | cons j items ih =>
    rw [List.forall_mem_cons, ← ih, AllIntegral, itemsDepth, Nat.max_le]
    constructor
    · rintro ⟨⟨integral, others⟩, depth, depths⟩
      exact ⟨⟨integral, depth⟩, others, depths⟩
    · rintro ⟨⟨integral, depth⟩, others, depths⟩
      exact ⟨⟨integral, others⟩, depth, depths⟩

theorem isExact_members {ms : List (String × Json)} :
    MembersIntegral ms ∧ membersDepth ms ≤ n ↔ ∀ m ∈ ms, m.2.IsExact n := by
  induction ms with
  | nil => simp [MembersIntegral, membersDepth]
  | cons m ms ih =>
    obtain ⟨key, j⟩ := m
    rw [List.forall_mem_cons, ← ih, MembersIntegral, membersDepth, Nat.max_le]
    constructor
    · rintro ⟨⟨integral, others⟩, depth, depths⟩
      exact ⟨⟨integral, depth⟩, others, depths⟩
    · rintro ⟨⟨integral, depth⟩, others, depths⟩
      exact ⟨⟨integral, others⟩, depth, depths⟩

@[simp] theorem isExact_arr {items : List Json} :
    IsExact (n + 1) (.arr items) ↔ ∀ j ∈ items, j.IsExact n := by
  rw [← isExact_items]
  exact ⟨fun h => ⟨h.integral, Nat.le_of_succ_le_succ h.depth_le⟩,
    fun h => ⟨h.1, Nat.succ_le_succ h.2⟩⟩

@[simp] theorem isExact_obj {ms : List (String × Json)} :
    IsExact (n + 1) (.obj ms) ↔ ∀ m ∈ ms, m.2.IsExact n := by
  rw [← isExact_members]
  exact ⟨fun h => ⟨h.integral, Nat.le_of_succ_le_succ h.depth_le⟩,
    fun h => ⟨h.1, Nat.succ_le_succ h.2⟩⟩

/-- What a decoder makes of a value it makes of the text of the value. -/
theorem IsExact.ofText_text {j : Json} {dec : Decoder α} {a : α} (h : j.IsExact maxDepth)
    (reads : dec.Reads j a) : dec.ofText j.text = .ok a := by
  rw [Decoder.ofText_text, h.integral.reread]
  exact reads _ (Origin.admits_text_zero.2 h.depth_le)

end Exact

end Json

/-! ### Parts of records -/

theorem reads_bool (b : Bool) : bool.Reads (.bool b) b := fun _ _ => rfl

theorem reads_id {kind : IdentKind} (id : Ident kind) :
    (Ident.decoder kind).Reads id.toJson id := by
  refine (reads_string id.text).refine ?_
  cases named : kind.usesToken with
  | true => exact Ident.parse?_text named id
  | false => exact Ident.parse?_text_of_bits named id

theorem reads_instant (t : Instant) : Instant.decoder.Reads t.toJson t :=
  (reads_string t.text).refine t.parseLoosely?_text

theorem reads_kind (k : EntityKind) : EntityKind.decoder.Reads k.toJson k := by
  have known : (EntityKind.all.map fun k => (k.name, k)).lookup k.name = some k := by
    cases k <;> rfl
  exact fun o _ => oneOf_str known o

theorem reads_status (s : EditgroupStatus) : EditgroupStatus.decoder.Reads s.toJson s := by
  have known : (EditgroupStatus.all.map fun s => (s.name, s)).lookup s.name = some s := by
    cases s <;> rfl
  exact fun o _ => oneOf_str known o

theorem takes_id {kind : IdentKind} (name : String) (id : Ident kind) :
    (required name (Ident.decoder kind)).Takes [(name, id.toJson)] id :=
  takes_required name (reads_id id)

theorem takes_id_option {kind : IdentKind} (name : String) (id : Option (Ident kind)) :
    (optional name (Ident.decoder kind)).Takes [(name, .ofOption Ident.toJson id)] id :=
  takes_optional name id (fun id _ => reads_id id) fun _ h => nomatch h

theorem takes_instant (name : String) (t : Instant) :
    (required name Instant.decoder).Takes [(name, t.toJson)] t :=
  takes_required name (reads_instant t)

theorem takes_bool (name : String) (b : Bool) :
    (required name bool).Takes [(name, .bool b)] b :=
  takes_required name (reads_bool b)

/-! ### Records -/

namespace ExternalId

theorem decoder_reads (x : ExternalId) : decoder.Reads x.toJson x := by
  refine reads_tagged_first (c := ⟨string.map (mk x.kind), none⟩) (by decide) ?_
    ((reads_string x.value).map (mk x.kind))
  cases x.kind <;> rfl

theorem isExact (x : ExternalId) : x.toJson.IsExact 1 := by simp [toJson]

end ExternalId

namespace EditAction

/-- A deletion is told by its tag alone. -/
theorem decoder_reads (a : EditAction) : decoder.Reads a.toJson a := by
  cases a with
  | update rev => exact reads_tagged_first (by decide) rfl ((reads_id rev).map update)
  | redirect target => exact reads_tagged_first (by decide) rfl ((reads_id target).map redirect)
  | delete => exact reads_tagged_bare rfl rfl

theorem isExact (a : EditAction) : a.toJson.IsExact 1 := by
  cases a <;> simp [toJson, Ident.toJson]

end EditAction

namespace Identity

theorem decoder_reads (x : Identity) : decoder.Reads x.toJson x := by
  have takes := (takes_id "id" x.id).map mk
    |>.seq (takes_required "entity_type" (reads_kind x.kind))
    |>.seq (takes_id_option "revision" x.revision)
    |>.seq (takes_id_option "redirect" x.redirect)
    |>.seq (takes_bool "is_live" x.isLive)
    |>.seq (takes_bool "is_deleted" x.isDeleted)
    |>.seq (takes_instant "created_at" x.createdAt)
  exact takes.reads rfl (by simp)

theorem isExact (x : Identity) : x.toJson.IsExact 1 := by
  simp [toJson, Ident.toJson, EntityKind.toJson, Instant.toJson]

end Identity

namespace Edit

theorem decoder_reads (e : Edit) : decoder.Reads e.toJson e := by
  have takes := (takes_id "id" e.id).map mk
    |>.seq (takes_id "editgroup_id" e.editgroup)
    |>.seq (takes_id "ident" e.ident)
    |>.seq (takes_required "entity_type" (reads_kind e.kind))
    |>.seq (takes_id_option "previous_revision" e.previousRevision)
    |>.seq (takes_id_option "previous_redirect" e.previousRedirect)
    |>.seq (takes_required "action" e.action.decoder_reads)
    |>.seq (takes_instant "created_at" e.createdAt)
  exact takes.reads rfl (by simp)

theorem isExact (e : Edit) : e.toJson.IsExact 2 := by
  simp [toJson, Ident.toJson, EntityKind.toJson, Instant.toJson, e.action.isExact]

end Edit

namespace ChangelogEntry

/-- The number is one of 64 bits with a sign, as all numbers of entries are. -/
def IsNumbered (x : ChangelogEntry) : Prop := -2 ^ 63 ≤ x.seq ∧ x.seq < 2 ^ 63

instance (x : ChangelogEntry) : Decidable x.IsNumbered := inferInstanceAs (Decidable (_ ∧ _))

theorem decoder_reads {x : ChangelogEntry} (numbered : x.IsNumbered) :
    decoder.Reads x.toJson x := by
  have same : (Int64.ofInt x.seq).toInt = x.seq :=
    Int64.toInt_ofInt_of_le numbered.1 numbered.2
  have seq : (int64.map (·.toInt)).Reads (.ofInt x.seq) x.seq := by
    have reads := (reads_int64 (Int64.ofInt x.seq)).map (·.toInt)
    rwa [ofInt64, same] at reads
  have takes := (takes_required "seq" seq).map mk
    |>.seq (takes_id "editgroup_id" x.editgroup)
    |>.seq (takes_instant "accepted_at" x.acceptedAt)
  exact takes.reads rfl (by simp)

theorem isExact (x : ChangelogEntry) : x.toJson.IsExact 1 := by
  simp [toJson, Ident.toJson, Instant.toJson]

end ChangelogEntry

namespace Editgroup

theorem decoder_reads {g : Editgroup} (numbered : ∀ x ∈ g.changelog, x.IsNumbered) :
    decoder.Reads g.toJson g := by
  have description : (optional "description" string).Takes
      [("description", .ofOption .str g.description)] g.description :=
    takes_optional "description" g.description (fun s _ => reads_string s) fun _ h => nomatch h
  have closed : (optional "closed_at" Instant.decoder).Takes
      [("closed_at", .ofOption Instant.toJson g.closedAt)] g.closedAt :=
    takes_optional "closed_at" g.closedAt (fun t _ => reads_instant t) fun _ h => nomatch h
  have changelog : (optional "changelog" ChangelogEntry.decoder).Takes
      [("changelog", .ofOption ChangelogEntry.toJson g.changelog)] g.changelog :=
    takes_optional "changelog" g.changelog
      (fun x hx => ChangelogEntry.decoder_reads (numbered x hx)) fun _ h => nomatch h
  have edits : (required "edits" (list Edit.decoder)).Takes
      [("edits", .arr (g.edits.map Edit.toJson))] g.edits :=
    takes_required "edits" (reads_list fun e _ => e.decoder_reads)
  have takes := (takes_id "id" g.id).map mk
    |>.seq (takes_id "editor_id" g.editor)
    |>.seq (takes_required "status" (reads_status g.status))
    |>.seq description
    |>.seq (takes_required "extra" (reads_extra g.extra))
    |>.seq (takes_instant "created_at" g.createdAt)
    |>.seq closed
    |>.seq edits
    |>.seq changelog
  exact takes.reads rfl (by simp)

/-- Besides the metadata nothing nests deeper than the actions of the edits. -/
theorem isExact {g : Editgroup} {n : Nat} (le : 4 ≤ n) (integral : g.extra.toJson.IsIntegral)
    (shallow : g.extra.toJson.depth < n) : g.toJson.IsExact n := by
  obtain ⟨m, rfl⟩ := Nat.exists_eq_add_of_le' le
  have extra : g.extra.toJson.IsExact (m + 3) := ⟨integral, Nat.le_of_lt_succ shallow⟩
  have edits : ∀ e ∈ g.edits, e.toJson.IsExact (m + 2) :=
    fun e _ => e.isExact.mono (Nat.le_add_left 2 m)
  have list : (Json.arr (g.edits.map Edit.toJson)).IsExact (m + 3) := by simpa using edits
  have changelog : ∀ x, g.changelog = some x → x.toJson.IsExact (m + 3) :=
    fun x _ => x.isExact.mono (by omega)
  simpa [toJson, Ident.toJson, EditgroupStatus.toJson, Instant.toJson, extra, list] using changelog

end Editgroup

namespace Editor

theorem decoder_reads (e : Editor) : decoder.Reads e.toJson e := by
  have takes := (takes_id "id" e.id).map mk
    |>.seq (takes_required "username" (reads_string e.username))
    |>.seq (takes_bool "is_admin" e.isAdmin)
    |>.seq (takes_bool "is_bot" e.isBot)
    |>.seq (takes_id_option "active_editgroup" e.activeEditgroup)
    |>.seq (takes_instant "created_at" e.createdAt)
  exact takes.reads rfl (by simp)

theorem isExact (e : Editor) : e.toJson.IsExact 1 := by
  simp [toJson, Ident.toJson, Instant.toJson]

end Editor

/-- Records are read back from their JSON. Whatever options are set, every action, edit, identity,
    editor, changelog entry, editgroup and external identifier is decoded from the text that it is
    written as, and is the same again; of an editgroup, if there are no doubles in its metadata and
    the metadata leaves room for the brackets of the editgroup. -/
theorem records_round_trip :
    (∀ a : EditAction, EditAction.decoder.ofText a.toJson.text = .ok a) ∧
      (∀ e : Edit, Edit.decoder.ofText e.toJson.text = .ok e) ∧
      (∀ x : Identity, Identity.decoder.ofText x.toJson.text = .ok x) ∧
      (∀ e : Editor, Editor.decoder.ofText e.toJson.text = .ok e) ∧
      (∀ x : ChangelogEntry, x.IsNumbered →
        ChangelogEntry.decoder.ofText x.toJson.text = .ok x) ∧
      (∀ g : Editgroup, g.extra.toJson.IsIntegral → g.extra.toJson.depth < maxDepth →
        (∀ x ∈ g.changelog, x.IsNumbered) → Editgroup.decoder.ofText g.toJson.text = .ok g) ∧
      ∀ x : ExternalId, ExternalId.decoder.ofText x.toJson.text = .ok x := by
  have one : 1 ≤ maxDepth := by decide
  have two : 2 ≤ maxDepth := by decide
  refine ⟨fun a => (a.isExact.mono one).ofText_text a.decoder_reads,
    fun e => (e.isExact.mono two).ofText_text e.decoder_reads,
    fun x => (x.isExact.mono one).ofText_text x.decoder_reads,
    fun e => (e.isExact.mono one).ofText_text e.decoder_reads,
    fun x numbered => (x.isExact.mono one).ofText_text (ChangelogEntry.decoder_reads numbered), ?_,
    fun x => (x.isExact.mono one).ofText_text x.decoder_reads⟩
  intro g integral shallow numbered
  have simple : g.toJson.IsExact maxDepth := Editgroup.isExact (by decide) integral shallow
  exact simple.ofText_text (Editgroup.decoder_reads numbered)

/-- An accepted editgroup with metadata and three edits, one for each kind of action. -/
def closedGroup : Editgroup where
  id := ⟨⟨1⟩⟩
  editor := ⟨⟨0⟩⟩
  status := .accepted
  description := some "three \"edits\""
  extra := .ofMembers [("tags", .arr [.ofInt 3, .null]), ("from", .obj [("bot", .bool true)])]
  createdAt := { date := ⟨987, 2, 28, by decide⟩, second := 43200, nano := 1000 }
  closedAt := some .leapSecond
  edits := [
    { id := ⟨⟨4⟩⟩, editgroup := ⟨⟨1⟩⟩, ident := ⟨⟨3⟩⟩, kind := .work, previousRevision := none
      previousRedirect := none, action := .update ⟨⟨2⟩⟩, createdAt := .leapSecond },
    { id := ⟨⟨6⟩⟩, editgroup := ⟨⟨1⟩⟩, ident := ⟨⟨5⟩⟩, kind := .file, previousRevision := some ⟨⟨7⟩⟩
      previousRedirect := none, action := .delete, createdAt := .leapSecond },
    { id := ⟨⟨8⟩⟩, editgroup := ⟨⟨1⟩⟩, ident := ⟨⟨9⟩⟩, kind := .work, previousRevision := none
      previousRedirect := some ⟨⟨5⟩⟩, action := .redirect ⟨⟨3⟩⟩, createdAt := .leapSecond }]
  changelog := some { seq := 12, editgroup := ⟨⟨1⟩⟩, acceptedAt := .leapSecond }

theorem closedGroup_round_trip :
    (∃ x ∈ closedGroup.changelog, ChangelogEntry.decoder.ofText x.toJson.text = .ok x) ∧
      Editgroup.decoder.ofText closedGroup.toJson.text = .ok closedGroup := by
  obtain ⟨-, -, -, -, entries, groups, -⟩ := records_round_trip
  have numbered : ∀ x ∈ closedGroup.changelog, x.IsNumbered := by decide
  refine ⟨⟨_, rfl, entries _ (numbered _ rfl)⟩, groups closedGroup ?_ ?_ numbered⟩
  · decide +kernel
  · decide +kernel

end Biblio
