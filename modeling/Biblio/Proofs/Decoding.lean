import Biblio.Entity.Codec
import Biblio.Proofs.Canonical
import Biblio.Proofs.Results
import Mathlib.Data.List.Nodup

/-! Decoding values.

    A decoder that is given a value meets no faults of a text; what it makes of the value depends
    on the origin only if there are too many brackets. A record is made from an object whose
    members, found by the names of the fields, are what the decoders of the fields take; other
    members, and the order of all of them, make no difference. -/

namespace Biblio.Json

/-- So many brackets more may be opened. -/
def Origin.Admits : Origin → Nat → Prop
  | .value, _ => True
  | .text depth, n => depth + n ≤ maxDepth

section Origin
variable {o : Origin} {m n : Nat}

theorem Origin.Admits.mono (h : o.Admits n) (le : m ≤ n) : o.Admits m := by
  cases o with
  | value => trivial
  | text depth => exact Nat.le_trans (Nat.add_le_add_left le depth) h

theorem Origin.Admits.enter (h : o.Admits (n + 1)) :
    ∃ inner, o.enter = .ok inner ∧ inner.Admits n := by
  cases o with
  | value => exact ⟨.value, rfl, trivial⟩
  | text depth =>
    have h : depth + (n + 1) ≤ maxDepth := h
    refine ⟨.text (depth + 1), if_pos (by omega), ?_⟩
    change depth + 1 + n ≤ maxDepth
    omega

theorem Origin.Admits.leave {inner : Origin} (h : inner.Admits n) (entered : o.enter = .ok inner) :
    o.Admits (n + 1) := by
  cases o with
  | value => trivial
  | text depth =>
    rw [Origin.enter] at entered
    split at entered
    · obtain rfl := Except.ok.inj entered
      have h : depth + 1 + n ≤ maxDepth := h
      change depth + (n + 1) ≤ maxDepth
      omega
    · cases entered

theorem Origin.admits_zero_of_enter {inner : Origin} (entered : o.enter = .ok inner) :
    inner.Admits 0 := by
  cases o with
  | value =>
    obtain rfl := Except.ok.inj entered
    trivial
  | text depth =>
    rw [Origin.enter] at entered
    split at entered
    · obtain rfl := Except.ok.inj entered
      exact Nat.succ_le_of_lt ‹depth < maxDepth›
    · cases entered

theorem Origin.Admits.max (hm : o.Admits m) (hn : o.Admits n) : o.Admits (Nat.max m n) := by
  rcases Nat.le_total m n with h | h
  · exact hn.mono (Nat.max_le.2 ⟨h, Nat.le_refl n⟩)
  · exact hm.mono (Nat.max_le.2 ⟨Nat.le_refl m, h⟩)

end Origin

/-! ### Any values -/

mutual

/-- A value is taken from its document, if its brackets are admitted. -/
theorem anyValue_ofJson : ∀ (j : Json) {o : Origin}, o.Admits j.depth →
    anyValue o (.ofJson j) = .ok j
  | .null, _, _ | .bool _, _, _ | .int _, _, _ | .real _, _, _ | .str _, _, _ => rfl
  | .arr items, o, h => by
    obtain ⟨inner, entered, admits⟩ := Origin.Admits.enter (n := itemsDepth items) h
    simp only [Document.ofJson, anyValue, entered, Except.ok_bind, anyItems_ofItems items admits,
      readStop]
    rfl
  | .obj members, o, h => by
    obtain ⟨inner, entered, admits⟩ := Origin.Admits.enter (n := membersDepth members) h
    simp only [Document.ofJson, anyValue, entered, Except.ok_bind,
      anyMembers_ofMembers members admits, readStop]
    rfl

theorem anyItems_ofItems : ∀ (items : List Json) {o : Origin}, o.Admits (itemsDepth items) →
    anyItems o (Document.ofItems items) = .ok items
  | [], _, _ => rfl
  | item :: items, o, h => by
    simp only [Document.ofItems, anyItems,
      anyValue_ofJson item (Origin.Admits.mono h (Nat.le_max_left _ _)),
      anyItems_ofItems items (Origin.Admits.mono h (Nat.le_max_right _ _))]
    rfl

theorem anyMembers_ofMembers : ∀ (members : List (String × Json)) {o : Origin},
    o.Admits (membersDepth members) → anyMembers o (Document.ofMembers members) = .ok members
  | [], _, _ => rfl
  | (key, value) :: members, o, h => by
    simp only [Document.ofMembers, anyMembers, Key.read,
      anyValue_ofJson value (Origin.Admits.mono h (Nat.le_max_left _ _)),
      anyMembers_ofMembers members (Origin.Admits.mono h (Nat.le_max_right _ _))]
    rfl

end

mutual

/-- A value is not taken if its brackets are not admitted. -/
theorem anyValue_of_not_admits : ∀ (j : Json) {o : Origin}, o.Admits 0 → ¬o.Admits j.depth →
    ∃ f, anyValue o (.ofJson j) = .error f
  | .null, _, outer, deep | .bool _, _, outer, deep | .int _, _, outer, deep
  | .real _, _, outer, deep | .str _, _, outer, deep => absurd outer deep
  | .arr items, o, outer, deep => by
    simp only [Document.ofJson, anyValue]
    cases entered : o.enter with
    | error f => exact ⟨f, rfl⟩
    | ok inner =>
      have inside := Origin.admits_zero_of_enter entered
      obtain ⟨f, hf⟩ := anyItems_of_not_admits items inside fun fits => deep (fits.leave entered)
      exact ⟨f, by rw [Except.ok_bind, hf]; rfl⟩
  | .obj members, o, outer, deep => by
    simp only [Document.ofJson, anyValue]
    cases entered : o.enter with
    | error f => exact ⟨f, rfl⟩
    | ok inner =>
      have inside := Origin.admits_zero_of_enter entered
      obtain ⟨f, hf⟩ := anyMembers_of_not_admits members inside fun fits =>
        deep (fits.leave entered)
      exact ⟨f, by rw [Except.ok_bind, hf]; rfl⟩

theorem anyItems_of_not_admits : ∀ (items : List Json) {o : Origin}, o.Admits 0 →
    ¬o.Admits (itemsDepth items) → ∃ f, anyItems o (Document.ofItems items) = .error f
  | [], _, outer, deep => absurd outer deep
  | item :: items, o, outer, deep => by
    simp only [Document.ofItems, anyItems]
    by_cases first : o.Admits item.depth
    · obtain ⟨f, hf⟩ := anyItems_of_not_admits items outer fun rest => deep (first.max rest)
      exact ⟨f, by rw [anyValue_ofJson item first, Except.ok_bind, hf]; rfl⟩
    · obtain ⟨f, hf⟩ := anyValue_of_not_admits item outer first
      exact ⟨f, by rw [hf]; rfl⟩

theorem anyMembers_of_not_admits : ∀ (members : List (String × Json)) {o : Origin}, o.Admits 0 →
    ¬o.Admits (membersDepth members) →
      ∃ f, anyMembers o (Document.ofMembers members) = .error f
  | [], _, outer, deep => absurd outer deep
  | (key, value) :: members, o, outer, deep => by
    simp only [Document.ofMembers, anyMembers, Key.read, Except.ok_bind]
    by_cases first : o.Admits value.depth
    · obtain ⟨f, hf⟩ := anyMembers_of_not_admits members outer fun rest => deep (first.max rest)
      exact ⟨f, by rw [anyValue_ofJson value first, Except.ok_bind, hf]; rfl⟩
    · obtain ⟨f, hf⟩ := anyValue_of_not_admits value outer first
      exact ⟨f, by rw [hf]; rfl⟩

end

mutual

/-- There is nothing in the document of a value that cannot be skipped. -/
theorem Document.skip_ofJson : ∀ j : Json, (Document.ofJson j).skip = .ok ()
  | .null | .bool _ | .int _ | .real _ | .str _ => rfl
  | .arr items => by
    simp only [Document.ofJson, Document.skip, Document.skipItems_ofItems items]
    rfl
  | .obj members => by
    simp only [Document.ofJson, Document.skip, Document.skipMembers_ofMembers members]
    rfl

theorem Document.skipItems_ofItems : ∀ items : List Json,
    Document.skipItems (Document.ofItems items) = .ok ()
  | [] => rfl
  | item :: items => by
    simp only [Document.ofItems, Document.skipItems, Document.skip_ofJson item,
      Document.skipItems_ofItems items]
    rfl

theorem Document.skipMembers_ofMembers : ∀ members : List (String × Json),
    Document.skipMembers (Document.ofMembers members) = .ok ()
  | [] => rfl
  | (key, value) :: members => by
    simp only [Document.ofMembers, Document.skipMembers, Document.skip_ofJson value,
      Document.skipMembers_ofMembers members]
    rfl

end

namespace Decoder

/-- The decoder makes `a` of the value, wherever its brackets are admitted. -/
def Reads {α : Type} (dec : Decoder α) (j : Json) (a : α) : Prop :=
  ∀ o : Origin, o.Admits j.depth → dec o (.ofJson j) = .ok a

section Reads
variable {α β : Type} {dec : Decoder α} {j : Json} {a : α}

theorem reads_string (s : String) : string.Reads (.str s) s := fun _ _ => rfl

theorem reads_int64 (n : Int64) : int64.Reads (.ofInt64 n) n := fun _ _ => by
  simp [ofInt64, ofInt, Document.ofJson, int64, WideInt.signed?_clamp_toInt]

theorem reads_uint64 (n : UInt64) : uint64.Reads (.ofUInt64 n) n := fun _ _ => by
  simp [ofUInt64, ofInt, Document.ofJson, uint64, WideInt.unsigned?_clamp_toNat]

theorem Reads.refine (h : dec.Reads j a) {f : α → Option β} {b : β} (hf : f a = some b) :
    (dec.refine f).Reads j b := fun o admits => by
  simp only [Decoder.refine, h o admits, Except.ok_bind, hf]
  rfl

theorem Reads.map (h : dec.Reads j a) (f : α → β) : (dec.map f).Reads j (f a) :=
  fun o admits => by
    simp only [Decoder.map, h o admits]
    rfl

theorem Reads.nullable (h : dec.Reads j a) (value : j ≠ .null) :
    (nullable dec).Reads j (some a) := fun o admits => by
  cases j with
  | null => exact absurd rfl value
  | _ => exact congrArg (Except.map some) (h o admits)

/-- Values are read one after the other. -/
theorem reads_list {write : α → Json} {as : List α} (h : ∀ a ∈ as, dec.Reads (write a) a) :
    (list dec).Reads (.arr (as.map write)) as := by
  intro o admits
  obtain ⟨inner, entered, admits⟩ := Origin.Admits.enter (n := itemsDepth (as.map write)) admits
  have items : ∀ as : List α, (∀ a ∈ as, dec.Reads (write a) a) →
      inner.Admits (itemsDepth (as.map write)) →
        items dec inner (Document.ofItems (as.map write)) = .ok as := by
    intro as h admits
    induction as with
    | nil => rfl
    | cons a as ih =>
      have first := h a List.mem_cons_self inner (admits.mono (Nat.le_max_left _ _))
      have rest := ih (fun b hb => h b (List.mem_cons_of_mem a hb))
        (admits.mono (Nat.le_max_right _ _))
      simp only [List.map_cons, Document.ofItems, Decoder.items, first, rest]
      rfl
  simp only [Document.ofJson, list, entered, Except.ok_bind, items as h admits, readStop]
  rfl

theorem reads_members (ms : List (String × Json)) : members.Reads (.obj ms) ms := by
  intro o admits
  obtain ⟨inner, entered, admits⟩ := Origin.Admits.enter (n := membersDepth ms) admits
  simp only [Document.ofJson, members, entered, Except.ok_bind, anyMembers_ofMembers ms admits,
    readStop]
  rfl

theorem reads_extra (x : Extra) : Extra.decoder.Reads x.toJson x := by
  have reads := (reads_members x.members).map Extra.ofMembers
  rwa [x.ofMembers_members] at reads

end Reads

/-! ### Records -/

theorem member?_ofMembers (ms : List (String × Json)) (name : String) :
    member? (Document.ofMembers ms) name = (ms.lookup name).map .ofJson := by
  induction ms with
  | nil => rfl
  | cons m ms ih =>
    obtain ⟨key, value⟩ := m
    rw [member?] at ih ⊢
    rw [Document.ofMembers, List.findSome?_cons]
    by_cases same : name = key
    · subst same
      rw [List.lookup_cons_self]
      simp
    · rw [lookup_cons_of_ne same, ← ih]
      simp [Ne.symm same]

/-- Members pass if their keys do not repeat and the decoders of the known ones take them. -/
theorem checkMembers_ofMembers {checks : List (String × Decoder Unit)} {o : Origin}
    {ms : List (String × Json)} (distinct : (ms.map (·.1)).Nodup)
    (pass : ∀ m ∈ ms, ∀ dec, (m.1, dec) ∈ checks → dec o (.ofJson m.2) = .ok ())
    {seen : List String} (unseen : ∀ m ∈ ms, m.1 ∉ seen) :
    checkMembers checks o seen (Document.ofMembers ms) = .ok () := by
  induction ms generalizing seen with
  | nil => rfl
  | cons m ms ih =>
    obtain ⟨key, value⟩ := m
    obtain ⟨notMem, distinct⟩ := List.nodup_cons.1 distinct
    have rest : ∀ seen : List String, (∀ m ∈ ms, m.1 ∉ seen) →
        checkMembers checks o seen (Document.ofMembers ms) = .ok () := fun _ =>
      ih distinct fun m hm => pass m (List.mem_cons_of_mem _ hm)
    simp only [Document.ofMembers, checkMembers, Key.read, Except.ok_bind]
    cases known : checks.lookup key with
    | none =>
      simp only [Document.skip_ofJson, Except.ok_bind]
      exact rest seen fun m hm => unseen m (List.mem_cons_of_mem _ hm)
    | some dec =>
      have first := unseen (key, value) List.mem_cons_self
      have mem : (key, dec) ∈ checks := by
        obtain ⟨before, behind, heq, -⟩ := List.lookup_eq_some_iff.1 known
        rw [heq]
        exact List.mem_append_right _ List.mem_cons_self
      have taken := pass (key, value) List.mem_cons_self dec mem
      simp only [List.contains_eq_mem, first, decide_false, Bool.false_eq_true, if_false, taken,
        Except.ok_bind]
      refine rest (key :: seen) fun m hm => ?_
      rw [List.mem_cons]
      rintro (same | before)
      · exact notMem (List.mem_map.2 ⟨m, hm, same⟩)
      · exact unseen m (List.mem_cons_of_mem _ hm) before

/-- The fields of a record make `a` of the members that are found by their names. -/
structure Fields.Reads {α : Type} (fields : Fields α) (o : Origin) (find : String → Option Json)
    (a : α) : Prop where
  checks : ∀ name dec, (name, dec) ∈ fields.checks → ∀ j, find name = some j →
    dec o (.ofJson j) = .ok ()
  build : fields.build o ⟨fun name => (find name).map .ofJson, false⟩ = .ok a

section Fields
variable {α β : Type} {o : Origin} {find : String → Option Json}

theorem Fields.Reads.map {fields : Fields α} {a : α} (h : fields.Reads o find a) (f : α → β) :
    (f <$> fields).Reads o find (f a) where
  checks := h.checks
  build := by
    change (fields.build o _).map f = _
    rw [h.build]
    rfl

theorem Fields.Reads.seq {first : Fields (α → β)} {f : α → β} (h : first.Reads o find f)
    {rest : Fields α} {a : α} (h' : rest.Reads o find a) :
    (first <*> rest).Reads o find (f a) where
  checks name dec mem := (List.mem_append.1 mem).elim (h.checks name dec) (h'.checks name dec)
  build := by
    change (first.build o _ >>= fun g => rest.build o _ >>= fun a => pure (g a)) = _
    rw [h.build, Except.ok_bind, h'.build, Except.ok_bind, Except.pure_eq]

/-- An object is read as a record if its fields make that of its members. -/
theorem reads_record {fields : Fields α} {ms : List (String × Json)} {a : α}
    (distinct : (ms.map (·.1)).Nodup)
    (h : ∀ o : Origin, o.Admits (membersDepth ms) → fields.Reads o (ms.lookup ·) a) :
    (record fields).Reads (.obj ms) a := by
  intro o admits
  obtain ⟨inner, entered, admits⟩ := Origin.Admits.enter (n := membersDepth ms) admits
  have reads := h inner admits
  have pass : checkMembers fields.checks inner [] (Document.ofMembers ms) = .ok () :=
    checkMembers_ofMembers distinct
      (fun m hm dec known => reads.checks m.1 dec known m.2 (lookup_of_mem distinct hm))
      fun _ _ => List.not_mem_nil
  simp only [Document.ofJson, record, entered, Except.ok_bind, pass, readStop]
  rw [show member? (Document.ofMembers ms) = fun name => (ms.lookup name).map .ofJson from
    funext (member?_ofMembers ms)]
  exact reads.build

/-- The fields make `a` of an object where these members are found. -/
def Fields.Takes (fields : Fields α) (ms : List (String × Json)) (a : α) : Prop :=
  ∀ (o : Origin) (find : String → Option Json),
    (∀ m ∈ ms, find m.1 = some m.2 ∧ o.Admits m.2.depth) → fields.Reads o find a

theorem Fields.Takes.map {fields : Fields α} {ms : List (String × Json)} {a : α}
    (h : fields.Takes ms a) (f : α → β) : (f <$> fields).Takes ms (f a) :=
  fun o find found => (h o find found).map f

theorem Fields.Takes.seq {first : Fields (α → β)} {f : α → β} {ms ms' : List (String × Json)}
    (h : first.Takes ms f) {rest : Fields α} {a : α} (h' : rest.Takes ms' a) :
    (first <*> rest).Takes (ms ++ ms') (f a) := by
  intro o find found
  have front := h o find fun m hm => found m (List.mem_append_left _ hm)
  have back := h' o find fun m hm => found m (List.mem_append_right _ hm)
  exact front.seq back

theorem takes_required {dec : Decoder α} {j : Json} {a : α} (name : String) (h : dec.Reads j a) :
    (required name dec).Takes [(name, j)] a := by
  intro o find found
  obtain ⟨there, admits⟩ := found _ (List.mem_singleton_self _)
  have decoded := h o admits
  refine ⟨fun name' dec' mem j' found' => ?_, ?_⟩
  · obtain ⟨rfl, rfl⟩ := Prod.mk.inj (List.mem_singleton.1 mem)
    obtain rfl := Option.some.inj (there.symm.trans found')
    rw [check, decoded]
    rfl
  · simp only [Decoder.required, there, Option.map_some, decoded]

/-- An option is taken from null or from what its value is written as. -/
theorem takes_optional {dec : Decoder α} {write : α → Json} (name : String) (v : Option α)
    (h : ∀ a ∈ v, dec.Reads (write a) a) (value : ∀ a, write a ≠ .null) :
    (optional name dec).Takes [(name, .ofOption write v)] v := by
  have reads : (nullable dec).Reads (.ofOption write v) v := by
    cases v with
    | none => exact fun _ _ => rfl
    | some a => exact (h a rfl).nullable (value a)
  intro o find found
  obtain ⟨there, -⟩ := found _ (List.mem_singleton_self _)
  have taken := takes_required name reads o find found
  refine ⟨taken.checks, ?_⟩
  have built := taken.build
  simp only [Decoder.required, Decoder.optional, there, Option.map_some] at built ⊢
  exact built

/-- An object is read as a record if the fields take its members. -/
theorem Fields.Takes.reads {fields : Fields α} {a : α} {taken ms : List (String × Json)}
    (h : fields.Takes taken a) (same : taken = ms) (distinct : (ms.map (·.1)).Nodup) :
    (record fields).Reads (.obj ms) a := by
  subst same
  refine reads_record distinct fun o admits => h o _ fun m hm => ?_
  have there := lookup_of_mem distinct hm
  exact ⟨there, admits.mono (depth_le_membersDepth there)⟩

end Fields

/-! ### Tagged values and texts -/

theorem lookup_map_snd {α β : Type} (f : α → β) (cases : List (String × α)) (name : String) :
    (cases.map fun p => (p.1, f p.2)).lookup name = (cases.lookup name).map f := by
  induction cases with
  | nil => rfl
  | cons p cases ih =>
    obtain ⟨key, a⟩ := p
    rw [List.map_cons, List.lookup_cons, List.lookup_cons, ih]
    cases name == key <;> rfl

theorem oneOf_str {α : Type} {cases : List (String × α)} {name : String} {a : α}
    (known : cases.lookup name = some a) (o : Origin) : oneOf cases o (.str name) = .ok a := by
  simp only [oneOf, choice, Case.named, lookup_map_snd, known, Option.map_some, Except.ok_bind,
    Except.pure_eq]

/-- A content in front of its tag is set aside as a value and read when the tag is known. -/
theorem reads_tagged {α : Type} {tag content : String} {cases : List (String × Tagged α)}
    {name : String} {c : Tagged α} {j : Json} {a : α} (differ : content ≠ tag)
    (known : cases.lookup name = some c) (h : c.content.Reads j a) :
    (tagged tag content cases).Reads (.obj [(content, j), (tag, .str name)]) a := by
  intro o admits
  have admits : o.Admits (j.depth + 1) := admits.mono (Nat.succ_le_succ (Nat.le_max_left _ _))
  obtain ⟨inner, entered, admits⟩ := admits.enter
  simp only [Document.ofJson, Document.ofMembers, tagged, entered, nextPart, Key.read, differ,
    if_false, if_true, anyValue_ofJson j admits, oneOf_str known, h .value trivial, noMoreParts,
    readStop, Except.ok_bind, Except.pure_eq]

/-- A content behind its tag is read as the tag says. -/
theorem reads_tagged_first {α : Type} {tag content : String} {cases : List (String × Tagged α)}
    {name : String} {c : Tagged α} {j : Json} {a : α} (differ : content ≠ tag)
    (known : cases.lookup name = some c) (h : c.content.Reads j a) :
    (tagged tag content cases).Reads (.obj [(tag, .str name), (content, j)]) a := by
  intro o admits
  have deepest : j.depth ≤ Nat.max (Json.str name).depth (membersDepth [(content, j)]) :=
    (Nat.le_max_left _ _).trans (Nat.le_max_right _ _)
  have admits : o.Admits (j.depth + 1) := admits.mono (Nat.succ_le_succ deepest)
  obtain ⟨inner, entered, admits⟩ := admits.enter
  simp only [Document.ofJson, Document.ofMembers, tagged, entered, nextPart, Key.read, differ,
    if_false, if_true, oneOf_str known, h inner admits, noMoreParts, readStop, Except.ok_bind,
    Except.pure_eq]

/-- A tag alone is read as the value that needs no content. -/
theorem reads_tagged_bare {α : Type} {tag content : String} {cases : List (String × Tagged α)}
    {name : String} {c : Tagged α} {a : α} (known : cases.lookup name = some c)
    (bare : c.bare = some a) : (tagged tag content cases).Reads (.obj [(tag, .str name)]) a := by
  intro o admits
  obtain ⟨inner, entered, -⟩ := Origin.Admits.enter (n := 0) admits
  simp only [Document.ofJson, Document.ofMembers, tagged, entered, nextPart, Key.read, if_true,
    oneOf_str known, bare, readStop, Except.ok_bind, Except.pure_eq]

/-- A content that nests too deeply is not set aside. -/
theorem tagged_of_not_admits {α : Type} {tag content : String} {cases : List (String × Tagged α)}
    {j : Json} {rest : List (String × Json)} {o : Origin} (differ : content ≠ tag)
    (outer : o.Admits 1) (deep : ¬o.Admits (j.depth + 1)) :
    ∃ f, tagged tag content cases o (.ofJson (.obj ((content, j) :: rest))) = .error f := by
  obtain ⟨inner, entered, admits⟩ := outer.enter
  obtain ⟨f, hf⟩ := anyValue_of_not_admits j admits fun fits => deep (fits.leave entered)
  refine ⟨f, ?_⟩
  simp only [Document.ofJson, Document.ofMembers, tagged, entered, nextPart, Key.read, differ,
    if_false, if_true, hf, Except.ok_bind, Except.pure_eq]
  rfl

/-- A printed value is decoded as it is read again. -/
theorem ofText_text {α : Type} (dec : Decoder α) (j : Json) :
    dec.ofText j.text = dec (.text 0) (.ofJson j.reread) := by
  simp only [Decoder.ofText, Document.ofText_text]
  cases dec (.text 0) (.ofJson j.reread) <;> rfl

theorem Origin.admits_text_zero {n : Nat} : (Origin.text 0).Admits n ↔ n ≤ maxDepth := by
  rw [Origin.Admits, Nat.zero_add]

/-! ### Members from slots -/

/-- The members of slots with names, left out where there is no value. -/
def fill (slots : List (String × Option Json)) : List (String × Json) :=
  slots.flatMap fun slot => Json.member? slot.1 id slot.2

/-- The value of the slot of a list. -/
def listSlot {α : Type} (write : α → Json) : List α → Option Json
  | [] => none
  | a :: as => some (.arr ((a :: as).map write))

section Slots
variable {slots : List (String × Option Json)} {name : String}

@[simp] theorem fill_nil : fill [] = [] := rfl

@[simp] theorem fill_cons (slot : String × Option Json) :
    fill (slot :: slots) = Json.member? slot.1 id slot.2 ++ fill slots := rfl

@[simp] theorem member?_id_some (j : Json) : Json.member? name id (some j) = [(name, j)] := rfl

@[simp] theorem member?_id_map {α : Type} (write : α → Json) (a : Option α) :
    Json.member? name id (a.map write) = Json.member? name write a := by
  cases a <;> rfl

@[simp] theorem member?_listSlot {α : Type} (write : α → Json) (as : List α) :
    Json.member? name id (listSlot write as) = Json.listMember? name write as := by
  cases as <;> rfl

theorem mem_fill {j : Json} : (name, j) ∈ fill slots ↔ (name, some j) ∈ slots := by
  rw [fill, List.mem_flatMap]
  constructor
  · rintro ⟨⟨k, v⟩, mem, h⟩
    cases v with
    | none => cases h
    | some v =>
      obtain ⟨rfl, rfl⟩ := Prod.mk.inj (List.mem_singleton.1 h)
      exact mem
  · exact fun mem => ⟨(name, some j), mem, List.mem_singleton_self _⟩

theorem nodup_fill (distinct : (slots.map (·.1)).Nodup) : ((fill slots).map (·.1)).Nodup := by
  refine distinct.sublist ?_
  clear distinct
  induction slots with
  | nil => exact List.Sublist.slnil
  | cons slot slots ih =>
    obtain ⟨k, v⟩ := slot
    cases v with
    | none => exact ih.cons k
    | some v => exact ih.cons_cons k

/-- By the name of a slot its value is found. -/
theorem lookup_fill (distinct : (slots.map (·.1)).Nodup) {v : Option Json}
    (mem : (name, v) ∈ slots) : (fill slots).reverse.lookup name = v := by
  cases v with
  | some j =>
    refine lookup_of_mem ?_ (List.mem_reverse.2 (mem_fill.2 mem))
    rw [List.map_reverse, List.nodup_reverse]
    exact nodup_fill distinct
  | none =>
    rw [List.lookup_eq_none_iff]
    rintro ⟨k, j⟩ filled
    rw [bne_iff_ne]
    rintro rfl
    have both := mem_fill.1 (List.mem_reverse.1 filled)
    cases List.inj_on_of_nodup_map distinct both mem rfl

/-- What is found are the values of slots in canonical form, and their brackets are admitted. -/
structure Holds (slots : List (String × Option Json)) (o : Origin)
    (find : String → Option Json) : Prop where
  found : ∀ {name : String} {v : Option Json}, (name, v) ∈ slots → find name = v.map canonical
  admits : ∀ {name : String} {j : Json}, find name = some j → o.Admits j.depth

/-- The fields make `a` of what is found where these slots are found among others. -/
def Fields.Fits {α : Type} (fields : Fields α) (slots : List (String × Option Json)) (a : α) :
    Prop :=
  ∀ (o : Origin) (find : String → Option Json), Holds slots o find → fields.Reads o find a

/-- The canonical form of an object is read as a record if the fields fit the slots that the object
    was filled from. -/
theorem Fields.Fits.reads {α : Type} {fields : Fields α} {a : α}
    {fitted : List (String × Option Json)} (h : fields.Fits fitted a) (same : fitted = slots)
    (distinct : (slots.map (·.1)).Nodup) :
    (record fields).Reads (Json.obj (fill slots)).canonical a := by
  subst same
  refine reads_record (canonicalMembers_isCanonical (fill fitted)).1.nodup fun o admits =>
    h o _ ⟨?_, ?_⟩
  · intro name v mem
    rw [lookup_canonicalMembers, lookup_fill distinct mem]
  · exact fun found => admits.mono (depth_le_membersDepth found)

variable {α β : Type} {dec : Decoder α} {a : α}

theorem Fields.Fits.map {fields : Fields α} (h : fields.Fits slots a) (f : α → β) :
    (f <$> fields).Fits slots (f a) :=
  fun o find holds => (h o find holds).map f

/-- More fields fit more slots. -/
theorem Fields.Fits.seq {first : Fields (α → β)} {f : α → β} (h : first.Fits slots f)
    {rest : Fields α} {slots' : List (String × Option Json)} (h' : rest.Fits slots' a) :
    (first <*> rest).Fits (slots ++ slots') (f a) := by
  intro o find holds
  have front : Holds slots o find :=
    ⟨fun mem => holds.found (List.mem_append_left _ mem), holds.admits⟩
  have back : Holds slots' o find :=
    ⟨fun mem => holds.found (List.mem_append_right _ mem), holds.admits⟩
  exact (h o find front).seq (h' o find back)

theorem fits_required {j : Json} (name : String) (h : dec.Reads j.canonical a) :
    (required name dec).Fits [(name, some j)] a := by
  intro o find holds
  have found : find name = some j.canonical := holds.found (List.mem_singleton_self _)
  refine takes_required name h o find fun m hm => ?_
  rw [List.mem_singleton.1 hm]
  exact ⟨found, holds.admits found⟩

theorem fits_defaulted {v : Option Json} {otherwise : α} (name : String)
    (some : ∀ j, v = some j → dec.Reads j.canonical a) (none : v = none → a = otherwise) :
    (defaulted name dec otherwise).Fits [(name, v)] a := by
  intro o find holds
  have found := holds.found (List.mem_singleton_self (name, v))
  cases v with
  | some j =>
    have reads := fits_required name (some j rfl) o find holds
    refine ⟨reads.checks, ?_⟩
    have built := reads.build
    simp only [Decoder.required, Decoder.defaulted, found, Option.map_some] at built ⊢
    exact built
  | none =>
    refine ⟨fun name' dec' mem' j' found' => ?_, ?_⟩
    · obtain ⟨rfl, rfl⟩ := Prod.mk.inj (List.mem_singleton.1 mem')
      cases found.symm.trans found'
    · simp only [Decoder.defaulted, found, Option.map_none, none rfl]

/-- A field that may be left out fits a slot that is filled if the field has a value. -/
theorem fits_optional {write : α → Json} (name : String) (v : Option α)
    (h : ∀ a, dec.Reads (write a).canonical a) (value : ∀ a, (write a).canonical ≠ .null) :
    (optionalAnywhere name dec).Fits [(name, v.map write)] v := by
  refine fits_defaulted name (fun j filled => ?_) fun empty => ?_
  · obtain ⟨a, rfl, rfl⟩ := Option.map_eq_some_iff.1 filled
    exact (h a).nullable (value a)
  · exact Option.map_eq_none_iff.1 empty

theorem fits_text (name : String) (s : Option String) :
    (textField name).Fits [(name, s.map .str)] s :=
  fits_optional name s reads_string fun _ h => nomatch h

theorem fits_integer (name : String) (n : Option Int64) :
    (integerField name).Fits [(name, n.map .ofInt64)] n :=
  fits_optional name n reads_int64 fun _ h => nomatch h

/-- A list that may be left out fits a slot that is filled if there are items. -/
theorem fits_list {write : α → Json} (name : String) (as : List α)
    (h : ∀ a, dec.Reads (write a).canonical a) :
    (listField name dec).Fits [(name, listSlot write as)] as := by
  cases as with
  | nil => exact fits_defaulted name (fun _ filled => nomatch filled) fun _ => rfl
  | cons a as =>
    refine fits_defaulted name (fun j filled => ?_) fun empty => nomatch empty
    obtain rfl := Option.some.inj filled
    rw [canonical, canonicalItems_eq_map, List.map_map]
    exact reads_list fun a _ => h a

/-- Metadata that may be left out fits a slot that is filled if there is some. -/
theorem fits_extra (x : Extra) : Extra.field.Fits [("extra", x.slot)] x := by
  refine fits_defaulted "extra" (fun j filled => ?_) fun empty => ?_
  · rw [x.eq_toJson_of_slot filled, x.canonical_toJson]
    exact reads_extra x
  · exact x.eq_empty_of_slot empty

end Slots

end Decoder

end Biblio.Json
