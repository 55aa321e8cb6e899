import Biblio.Proofs.Decoding
import Biblio.Proofs.Spelling

/-! Bodies and their canonical texts.

    Each record is filled from slots, one for each field, and its decoder finds the fields by their
    names again. In the canonical text of a body the fields stand in front of the tag that says what
    they are the fields of. So a body is read back from its canonical text, if there are no doubles
    in its metadata and not too many brackets; and bodies with the same text are the same. -/

namespace Biblio

open Json Json.Decoder

/-! ### Fields with values of the domain -/

theorem reads_ident {kind : IdentKind} (named : kind.usesToken = true) (id : Ident kind) :
    (Ident.decoder kind).Reads id.toJson.canonical id :=
  (reads_string id.text).refine (Ident.parse?_text named id)

theorem reads_date (d : Date) : Date.decoder.Reads (Json.str d.text) d :=
  (reads_string d.text).refine (Date.parse?_text d)

theorem fits_entity (name : String) (id : Option EntityId) :
    (entityField name).Fits [(name, id.map Ident.toJson)] id :=
  fits_optional name id (reads_ident rfl) fun _ h => nomatch h

theorem fits_date (name : String) (d : Option Date) :
    (optionalAnywhere name Date.decoder).Fits [(name, d.map fun d => .str d.text)] d :=
  fits_optional name d reads_date fun _ h => nomatch h

theorem fits_size (name : String) (n : Option UInt64) :
    (optionalAnywhere name uint64).Fits [(name, n.map .ofUInt64)] n :=
  fits_optional name n reads_uint64 fun _ h => nomatch h

theorem fits_string (name s : String) : (required name string).Fits [(name, some (.str s))] s :=
  fits_required name (j := .str s) (reads_string s)

theorem fits_title (s : String) : (defaulted "title" string "").Fits [("title", some (.str s))] s :=
  fits_defaulted "title" (fun _ filled => Option.some.inj filled ▸ reads_string s)
    fun empty => nomatch empty

/-! ### Slots with doubles -/

section Reread
variable {α : Type}

@[simp] theorem reread_str (s : String) : (Json.str s).reread = .str s := rfl

@[simp] theorem reread_comp_str : Json.reread ∘ Json.str = .str := rfl

@[simp] theorem reread_comp_date :
    (Json.reread ∘ fun d : Date => Json.str d.text) = fun d => .str d.text := rfl

@[simp] theorem reread_comp_int64 : Json.reread ∘ Json.ofInt64 = .ofInt64 := rfl

@[simp] theorem reread_comp_uint64 : Json.reread ∘ Json.ofUInt64 = .ofUInt64 := rfl

@[simp] theorem reread_comp_ident : Json.reread ∘ (Ident.toJson : EntityId → Json) = Ident.toJson :=
  rfl

theorem rereadItems_eq_map (items : List Json) : rereadItems items = items.map Json.reread := by
  induction items with
  | nil => rfl
  | cons item items ih => rw [rereadItems, ih, List.map_cons]

theorem map_reread_list {β : Type} {write : α → Json} {write' : β → Json} {f : α → β}
    (h : ∀ a, (write a).reread = write' (f a)) (as : List α) :
    (listSlot write as).map Json.reread = listSlot write' (as.map f) := by
  cases as with
  | nil => rfl
  | cons a as =>
    simp only [listSlot, Option.map_some, Json.reread, rereadItems_eq_map, List.map_map,
      List.map_cons, h]
    congr 4
    funext a
    exact h a

theorem reread_fill (slots : List (String × Option Json)) : (Json.obj (fill slots)).reread =
    .obj (fill (slots.map fun slot => (slot.1, slot.2.map Json.reread))) := by
  rw [Json.reread]
  congr 1
  induction slots with
  | nil => rfl
  | cons slot slots ih =>
    obtain ⟨name, v⟩ := slot
    cases v with
    | none => exact ih
    | some j => exact congrArg (List.cons (name, j.reread)) ih

end Reread

/-! ### Records -/

namespace Work

/-- The fields of a work with their names. -/
def slots (w : Work) : List (String × Option Json) :=
  [("title", w.title.map .str), ("work_type", w.workType.map .str), ("extra", w.extra.slot)]

theorem toJson_eq (w : Work) : w.toJson = .obj (fill w.slots) := by
  simp [toJson, slots, textMember?, Extra.member?_eq]

theorem nodup_slots (w : Work) : (w.slots.map (·.1)).Nodup := by
  simp [slots]

theorem decoder_reads (w : Work) : decoder.Reads w.toJson.canonical w := by
  rw [toJson_eq]
  have fits := (fits_text "title" w.title).map mk
    |>.seq (fits_text "work_type" w.workType)
    |>.seq (fits_extra w.extra)
  exact fits.reads (by simp [slots]) w.nodup_slots

/-- A work with every double as it is read where it was printed. -/
def reread (w : Work) : Work := { w with extra := w.extra.reread }

theorem toJson_reread (w : Work) : w.toJson.reread = w.reread.toJson := by
  rw [toJson_eq, toJson_eq, reread_fill]
  simp [slots, reread, Extra.slot_reread]

end Work

namespace Contributor

/-- The fields of a contributor with their names. -/
def slots (c : Contributor) : List (String × Option Json) :=
  [("index", c.index.map .ofInt64), ("creator_id", c.creatorId.map Ident.toJson),
    ("raw_name", c.rawName.map .str), ("role", c.role.map .str), ("extra", c.extra.slot)]

theorem toJson_eq (c : Contributor) : c.toJson = .obj (fill c.slots) := by
  simp [toJson, slots, textMember?, Extra.member?_eq]

theorem nodup_slots (c : Contributor) : (c.slots.map (·.1)).Nodup := by
  simp [slots]

theorem decoder_reads (c : Contributor) : decoder.Reads c.toJson.canonical c := by
  rw [toJson_eq]
  have fits := (fits_integer "index" c.index).map mk
    |>.seq (fits_entity "creator_id" c.creatorId)
    |>.seq (fits_text "raw_name" c.rawName)
    |>.seq (fits_text "role" c.role)
    |>.seq (fits_extra c.extra)
  exact fits.reads (by simp [slots]) c.nodup_slots

/-- A contributor with every double as it is read where it was printed. -/
def reread (c : Contributor) : Contributor := { c with extra := c.extra.reread }

theorem toJson_reread (c : Contributor) : c.toJson.reread = c.reread.toJson := by
  rw [toJson_eq, toJson_eq, reread_fill]
  simp [slots, reread, Extra.slot_reread]

end Contributor

namespace Reference

/-- The fields of a citation with their names. -/
def slots (r : Reference) : List (String × Option Json) :=
  [("index", r.index.map .ofInt64), ("target_release_id", r.targetReleaseId.map Ident.toJson),
    ("key", r.key.map .str), ("year", r.year.map .ofInt64),
    ("container_name", r.containerName.map .str), ("title", r.title.map .str),
    ("locator", r.locator.map .str), ("extra", r.extra.slot)]

theorem toJson_eq (r : Reference) : r.toJson = .obj (fill r.slots) := by
  simp [toJson, slots, textMember?, Extra.member?_eq]

theorem nodup_slots (r : Reference) : (r.slots.map (·.1)).Nodup := by
  simp [slots]

theorem decoder_reads (r : Reference) : decoder.Reads r.toJson.canonical r := by
  rw [toJson_eq]
  have fits := (fits_integer "index" r.index).map mk
    |>.seq (fits_entity "target_release_id" r.targetReleaseId)
    |>.seq (fits_text "key" r.key)
    |>.seq (fits_integer "year" r.year)
    |>.seq (fits_text "container_name" r.containerName)
    |>.seq (fits_text "title" r.title)
    |>.seq (fits_text "locator" r.locator)
    |>.seq (fits_extra r.extra)
  exact fits.reads (by simp [slots]) r.nodup_slots

/-- A citation with every double as it is read where it was printed. -/
def reread (r : Reference) : Reference := { r with extra := r.extra.reread }

theorem toJson_reread (r : Reference) : r.toJson.reread = r.reread.toJson := by
  rw [toJson_eq, toJson_eq, reread_fill]
  simp [slots, reread, Extra.slot_reread]

end Reference

namespace Abstract

/-- The fields of an abstract with their names. -/
def slots (a : Abstract) : List (String × Option Json) :=
  [("content", some (.str a.content)), ("mimetype", a.mimetype.map .str), ("lang", a.lang.map .str)]

theorem toJson_eq (a : Abstract) : a.toJson = .obj (fill a.slots) := by
  simp [toJson, slots, textMember?]

theorem nodup_slots (a : Abstract) : (a.slots.map (·.1)).Nodup := by
  simp [slots]

theorem decoder_reads (a : Abstract) : decoder.Reads a.toJson.canonical a := by
  rw [toJson_eq]
  have fits := (fits_string "content" a.content).map mk
    |>.seq (fits_text "mimetype" a.mimetype)
    |>.seq (fits_text "lang" a.lang)
  exact fits.reads (by simp [slots]) a.nodup_slots

theorem reread_toJson (a : Abstract) : a.toJson.reread = a.toJson := by
  rw [toJson_eq, reread_fill]
  simp [slots]

end Abstract

namespace Release

/-- The fields of a release with their names. -/
def slots (r : Release) : List (String × Option Json) :=
  [("title", some (.str r.title)), ("release_type", r.releaseType.map .str),
    ("release_date", r.releaseDate.map fun d => .str d.text),
    ("release_year", r.releaseYear.map .ofInt64), ("work_id", r.workId.map Ident.toJson),
    ("container_id", r.containerId.map Ident.toJson), ("doi", r.doi.map .str),
    ("pmid", r.pmid.map .str), ("pmcid", r.pmcid.map .str),
    ("wikidata_qid", r.wikidataQid.map .str), ("volume", r.volume.map .str),
    ("issue", r.issue.map .str), ("pages", r.pages.map .str), ("publisher", r.publisher.map .str),
    ("language", r.language.map .str), ("contribs", listSlot Contributor.toJson r.contribs),
    ("refs", listSlot Reference.toJson r.refs), ("abstracts", listSlot Abstract.toJson r.abstracts),
    ("extra", r.extra.slot)]

theorem toJson_eq (r : Release) : r.toJson = .obj (fill r.slots) := by
  simp [toJson, slots, textMember?, Extra.member?_eq]

theorem nodup_slots (r : Release) : (r.slots.map (·.1)).Nodup := by
  simp [slots]

theorem decoder_reads (r : Release) : decoder.Reads r.toJson.canonical r := by
  rw [toJson_eq]
  have fits := (fits_title r.title).map mk
    |>.seq (fits_text "release_type" r.releaseType)
    |>.seq (fits_date "release_date" r.releaseDate)
    |>.seq (fits_integer "release_year" r.releaseYear)
    |>.seq (fits_entity "work_id" r.workId)
    |>.seq (fits_entity "container_id" r.containerId)
    |>.seq (fits_text "doi" r.doi)
    |>.seq (fits_text "pmid" r.pmid)
    |>.seq (fits_text "pmcid" r.pmcid)
    |>.seq (fits_text "wikidata_qid" r.wikidataQid)
    |>.seq (fits_text "volume" r.volume)
    |>.seq (fits_text "issue" r.issue)
    |>.seq (fits_text "pages" r.pages)
    |>.seq (fits_text "publisher" r.publisher)
    |>.seq (fits_text "language" r.language)
    |>.seq (fits_list "contribs" r.contribs Contributor.decoder_reads)
    |>.seq (fits_list "refs" r.refs Reference.decoder_reads)
    |>.seq (fits_list "abstracts" r.abstracts Abstract.decoder_reads)
    |>.seq (fits_extra r.extra)
  exact fits.reads (by simp [slots]) r.nodup_slots

/-- A release with every double as it is read where it was printed. -/
def reread (r : Release) : Release :=
  { r with
    contribs := r.contribs.map Contributor.reread
    refs := r.refs.map Reference.reread
    extra := r.extra.reread }

theorem toJson_reread (r : Release) : r.toJson.reread = r.reread.toJson := by
  have contribs := map_reread_list Contributor.toJson_reread r.contribs
  have refs := map_reread_list Reference.toJson_reread r.refs
  have abstracts := map_reread_list (f := id) Abstract.reread_toJson r.abstracts
  rw [toJson_eq, toJson_eq, reread_fill]
  simp [slots, reread, Extra.slot_reread, contribs, refs, abstracts]

end Release

namespace Container

/-- The fields of a container with their names. -/
def slots (c : Container) : List (String × Option Json) :=
  [("name", some (.str c.name)), ("container_type", c.containerType.map .str),
    ("publisher", c.publisher.map .str), ("issnl", c.issnl.map .str),
    ("wikidata_qid", c.wikidataQid.map .str), ("extra", c.extra.slot)]

theorem toJson_eq (c : Container) : c.toJson = .obj (fill c.slots) := by
  simp [toJson, slots, textMember?, Extra.member?_eq]

theorem nodup_slots (c : Container) : (c.slots.map (·.1)).Nodup := by
  simp [slots]

theorem decoder_reads (c : Container) : decoder.Reads c.toJson.canonical c := by
  rw [toJson_eq]
  have fits := (fits_string "name" c.name).map mk
    |>.seq (fits_text "container_type" c.containerType)
    |>.seq (fits_text "publisher" c.publisher)
    |>.seq (fits_text "issnl" c.issnl)
    |>.seq (fits_text "wikidata_qid" c.wikidataQid)
    |>.seq (fits_extra c.extra)
  exact fits.reads (by simp [slots]) c.nodup_slots

/-- A container with every double as it is read where it was printed. -/
def reread (c : Container) : Container := { c with extra := c.extra.reread }

theorem toJson_reread (c : Container) : c.toJson.reread = c.reread.toJson := by
  rw [toJson_eq, toJson_eq, reread_fill]
  simp [slots, reread, Extra.slot_reread]

end Container

namespace Creator

/-- The fields of a creator with their names. -/
def slots (c : Creator) : List (String × Option Json) :=
  [("display_name", some (.str c.displayName)), ("given_name", c.givenName.map .str),
    ("surname", c.surname.map .str), ("orcid", c.orcid.map .str),
    ("wikidata_qid", c.wikidataQid.map .str), ("extra", c.extra.slot)]

theorem toJson_eq (c : Creator) : c.toJson = .obj (fill c.slots) := by
  simp [toJson, slots, textMember?, Extra.member?_eq]

theorem nodup_slots (c : Creator) : (c.slots.map (·.1)).Nodup := by
  simp [slots]

theorem decoder_reads (c : Creator) : decoder.Reads c.toJson.canonical c := by
  rw [toJson_eq]
  have fits := (fits_string "display_name" c.displayName).map mk
    |>.seq (fits_text "given_name" c.givenName)
    |>.seq (fits_text "surname" c.surname)
    |>.seq (fits_text "orcid" c.orcid)
    |>.seq (fits_text "wikidata_qid" c.wikidataQid)
    |>.seq (fits_extra c.extra)
  exact fits.reads (by simp [slots]) c.nodup_slots

/-- A creator with every double as it is read where it was printed. -/
def reread (c : Creator) : Creator := { c with extra := c.extra.reread }

theorem toJson_reread (c : Creator) : c.toJson.reread = c.reread.toJson := by
  rw [toJson_eq, toJson_eq, reread_fill]
  simp [slots, reread, Extra.slot_reread]

end Creator

namespace FileUrl

/-- The fields of a place with their names. -/
def slots (u : FileUrl) : List (String × Option Json) :=
  [("url", some (.str u.url)), ("rel", some (.str u.rel))]

theorem toJson_eq (u : FileUrl) : u.toJson = .obj (fill u.slots) := by
  simp [toJson, slots]

theorem nodup_slots (u : FileUrl) : (u.slots.map (·.1)).Nodup := by
  simp [slots]

theorem decoder_reads (u : FileUrl) : decoder.Reads u.toJson.canonical u := by
  rw [toJson_eq]
  have fits := (fits_string "url" u.url).map mk
    |>.seq (fits_string "rel" u.rel)
  exact fits.reads (by simp [slots]) u.nodup_slots

theorem reread_toJson (u : FileUrl) : u.toJson.reread = u.toJson := by
  rw [toJson_eq, reread_fill]
  simp [slots]

end FileUrl

namespace File

/-- The fields of a file with their names. -/
def slots (f : File) : List (String × Option Json) :=
  [("size", f.size.map .ofUInt64), ("md5", f.md5.map .str), ("sha1", f.sha1.map .str),
    ("sha256", f.sha256.map .str), ("mimetype", f.mimetype.map .str),
    ("urls", listSlot FileUrl.toJson f.urls), ("release_ids", listSlot Ident.toJson f.releaseIds),
    ("extra", f.extra.slot)]

theorem toJson_eq (f : File) : f.toJson = .obj (fill f.slots) := by
  simp [toJson, slots, textMember?, Extra.member?_eq]

theorem nodup_slots (f : File) : (f.slots.map (·.1)).Nodup := by
  simp [slots]

theorem decoder_reads (f : File) : decoder.Reads f.toJson.canonical f := by
  rw [toJson_eq]
  have fits := (fits_size "size" f.size).map mk
    |>.seq (fits_text "md5" f.md5)
    |>.seq (fits_text "sha1" f.sha1)
    |>.seq (fits_text "sha256" f.sha256)
    |>.seq (fits_text "mimetype" f.mimetype)
    |>.seq (fits_list "urls" f.urls FileUrl.decoder_reads)
    |>.seq (fits_list "release_ids" f.releaseIds (reads_ident rfl))
    |>.seq (fits_extra f.extra)
  exact fits.reads (by simp [slots]) f.nodup_slots

/-- A file with every double as it is read where it was printed. -/
def reread (f : File) : File := { f with extra := f.extra.reread }

theorem toJson_reread (f : File) : f.toJson.reread = f.reread.toJson := by
  have urls := map_reread_list (f := id) FileUrl.reread_toJson f.urls
  have text : ∀ release : EntityId, release.toJson.reread = Ident.toJson (id release) :=
    fun _ => rfl
  have ids := map_reread_list (f := id) text f.releaseIds
  rw [toJson_eq, toJson_eq, reread_fill]
  simp [slots, reread, Extra.slot_reread, urls, ids]

end File

/-! ### Bodies -/

namespace EntityBody

/-- The metadata of a body, that of its parts included. -/
def extras : EntityBody → List Extra
  | work w => [w.extra]
  | release r => r.extra :: (r.contribs.map (·.extra) ++ r.refs.map (·.extra))
  | container c => [c.extra]
  | creator c => [c.extra]
  | file f => [f.extra]

/-- The deepest nesting of brackets in the canonical text of a body. -/
def nesting (b : EntityBody) : Nat := b.toJson.canonical.depth

/-- There are no doubles in the metadata of a body, and its canonical text does not nest deeper than
    a text may. -/
structure IsPlain (b : EntityBody) : Prop where
  integral : ∀ x ∈ b.extras, x.toJson.IsIntegral
  shallow : b.nesting ≤ maxDepth

/-- A body with every double as it is read where it was printed. -/
def reread : EntityBody → EntityBody
  | work w => .work w.reread
  | release r => .release r.reread
  | container c => .container c.reread
  | creator c => .creator c.reread
  | file f => .file f.reread

variable {b b' : EntityBody}

@[simp] theorem kind_reread (b : EntityBody) : b.reread.kind = b.kind := by
  cases b <;> rfl

theorem fieldsJson_reread (b : EntityBody) : b.fieldsJson.reread = b.reread.fieldsJson := by
  cases b with
  | work w => exact w.toJson_reread
  | release r => exact r.toJson_reread
  | container c => exact c.toJson_reread
  | creator c => exact c.toJson_reread
  | file f => exact f.toJson_reread

theorem toJson_reread (b : EntityBody) : b.toJson.reread = b.reread.toJson := by
  simp only [toJson, EntityKind.toJson, Json.reread, rereadMembers, fieldsJson_reread, kind_reread]

/-- Without doubles in its metadata a body is read again as it is. -/
theorem reread_of_isIntegral (h : ∀ x ∈ b.extras, x.toJson.IsIntegral) : b.reread = b := by
  cases b with
  | work w => rw [reread, Work.reread, Extra.reread_of_isIntegral (h w.extra List.mem_cons_self)]
  | release r =>
    have contribs : r.contribs.map Contributor.reread = r.contribs.map id := by
      refine List.map_congr_left fun c hc => ?_
      rw [id, Contributor.reread, Extra.reread_of_isIntegral (h c.extra
        (List.mem_cons_of_mem _ (List.mem_append_left _ (List.mem_map_of_mem hc))))]
    have refs : r.refs.map Reference.reread = r.refs.map id := by
      refine List.map_congr_left fun c hc => ?_
      rw [id, Reference.reread, Extra.reread_of_isIntegral (h c.extra
        (List.mem_cons_of_mem _ (List.mem_append_right _ (List.mem_map_of_mem hc))))]
    rw [reread, Release.reread, contribs, refs, List.map_id, List.map_id,
      Extra.reread_of_isIntegral (h r.extra List.mem_cons_self)]
  | container c =>
    rw [reread, Container.reread, Extra.reread_of_isIntegral (h c.extra List.mem_cons_self)]
  | creator c =>
    rw [reread, Creator.reread, Extra.reread_of_isIntegral (h c.extra List.mem_cons_self)]
  | file f => rw [reread, File.reread, Extra.reread_of_isIntegral (h f.extra List.mem_cons_self)]

/-- In canonical form the fields come before the tag. -/
theorem canonical_toJson (b : EntityBody) : b.toJson.canonical =
    .obj [("body", b.fieldsJson.canonical), ("entity_type", .str b.kind.name)] := by
  have before : ¬"entity_type" < "body" := by decide
  simp [toJson, EntityKind.toJson, canonical, canonicalMembers, insertMissing, before]

theorem fieldsDecoder_reads (b : EntityBody) :
    (fieldsDecoder b.kind).Reads b.fieldsJson.canonical b := by
  cases b with
  | work w => exact w.decoder_reads.map work
  | release r => exact r.decoder_reads.map release
  | container c => exact c.decoder_reads.map container
  | creator c => exact c.decoder_reads.map creator
  | file f => exact f.decoder_reads.map file

theorem decoder_reads (b : EntityBody) : decoder.Reads b.toJson.canonical b := by
  rw [canonical_toJson]
  refine reads_tagged (c := ⟨fieldsDecoder b.kind, none⟩) (by decide) ?_ b.fieldsDecoder_reads
  cases b <;> rfl

theorem nesting_eq (b : EntityBody) : b.nesting = b.fieldsJson.canonical.depth + 1 := by
  rw [nesting, canonical_toJson]
  simp [depth, membersDepth]

/-- A body whose canonical text does not nest too deeply is read from that text, but for doubles in
    its metadata. -/
theorem ofText_canonicalText (shallow : b.nesting ≤ maxDepth) :
    decoder.ofText b.canonicalText = .ok b.reread := by
  rw [canonicalText, ofText_text, ← canonical_reread, toJson_reread]
  refine b.reread.decoder_reads _ (Origin.admits_text_zero.2 ?_)
  rw [← toJson_reread, canonical_reread, depth_reread]
  exact shallow

/-- If it nests deeper it cannot be read. -/
theorem ofText_canonicalText_of_deep (deep : maxDepth < b.nesting) :
    ∃ f, decoder.ofText b.canonicalText = .error f := by
  rw [canonicalText, ofText_text, canonical_toJson, Json.reread, rereadMembers]
  refine tagged_of_not_admits (by decide) (Origin.admits_text_zero.2 (by decide)) fun fits => ?_
  rw [depth_reread, ← nesting_eq, Origin.admits_text_zero] at fits
  omega

/-- A body is read back from its canonical text. -/
theorem IsPlain.ofText_canonicalText (h : b.IsPlain) : decoder.ofText b.canonicalText = .ok b := by
  rw [EntityBody.ofText_canonicalText h.shallow, reread_of_isIntegral h.integral]

theorem IsPlain.canonicalText_inj (h : b.IsPlain) (h' : b'.IsPlain) :
    b.canonicalText = b'.canonicalText ↔ b = b' := by
  refine ⟨fun same => ?_, fun same => same ▸ rfl⟩
  have read := h.ofText_canonicalText
  rw [same, h'.ofText_canonicalText] at read
  exact (Except.ok.inj read).symm

/-- **Canonical texts.** A body without doubles, whose canonical text does not nest deeper than a
    text may, is read back from that text as it is. So two such bodies have the same canonical text
    if and only if they are the same, and the order in which the members of their metadata were
    written makes no difference at any depth. -/
theorem canonicalText_round_trip (h : b.IsPlain) :
    decoder.ofText b.canonicalText = .ok b ∧
      (∀ b' : EntityBody, b'.IsPlain → (b.canonicalText = b'.canonicalText ↔ b = b')) ∧
      ∀ ms ms' : List (String × Json), Json.Reordered (.obj ms) (.obj ms') →
        Extra.ofMembers ms = Extra.ofMembers ms' :=
  ⟨h.ofText_canonicalText, fun _ => h.canonicalText_inj, fun _ _ => Extra.ofMembers_eq_of_reordered⟩

/-- A release from before the common era, with parts of every kind and metadata within metadata. -/
def oldRelease : EntityBody :=
  .release {
    title := "a \"book\"\nand é"
    releaseDate := Date.of? (-43) 3 15
    releaseYear := some (-43)
    workId := some ⟨⟨7⟩⟩
    contribs := [{ index := some 0, rawName := some "anon y. mouse" },
      { creatorId := some ⟨⟨3⟩⟩, extra := .ofMembers [("n", .ofInt64 (-1))] }]
    refs := [{ targetReleaseId := some ⟨⟨9⟩⟩,
               extra := .ofMembers [("raw", .obj [("z", .arr [.null]), ("a", .str "10.1/x")])] }]
    abstracts := [{ content := "about a book", lang := some "en" }]
    extra := .ofMembers [("f", .ofUInt64 18446744073709551615)] }

theorem oldRelease_is_plain : oldRelease.IsPlain where
  integral := by decide +kernel
  shallow := by decide +kernel

theorem oldRelease_canonicalText_round_trip :
    oldRelease.IsPlain ∧ decoder.ofText oldRelease.canonicalText = .ok oldRelease :=
  ⟨oldRelease_is_plain, (canonicalText_round_trip oldRelease_is_plain).1⟩

end EntityBody

end Biblio
