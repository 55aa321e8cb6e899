import Biblio.Entity.Extra
import Biblio.Proofs.Reading

/-! Canonical forms.

    Members in canonical form are settled by what is found in them by each key: for every key it is
    the last value that there was, in canonical form. So metadata is the same if it has the same
    entries, in whatever order they were written. How deep a value nests is counted here, too. -/

namespace Biblio

namespace Json

/-! ### Members and their keys -/

section Lookup
variable {key : String} {ms ms' : List (String × Json)}

theorem lookup_cons_of_ne {k : String} (h : key ≠ k) (v : Json) :
    ((k, v) :: ms).lookup key = ms.lookup key := by
  have : (key == k) = false := by simpa using h
  rw [List.lookup_cons, this]

theorem lookup_eq_none_of_lt (h : ∀ m ∈ ms, key < m.1) : ms.lookup key = none := by
  rw [List.lookup_eq_none_iff]
  intro m hm
  rw [bne_iff_ne]
  rintro rfl
  exact String.lt_irrefl _ (h m hm)

/-- Where keys do not repeat, a member is found by its key. -/
theorem lookup_of_mem {value : Json} (distinct : (ms.map (·.1)).Nodup) (h : (key, value) ∈ ms) :
    ms.lookup key = some value := by
  induction ms with
  | nil => cases h
  | cons m ms ih =>
    obtain ⟨k, v⟩ := m
    obtain ⟨notMem, rest⟩ := List.nodup_cons.1 distinct
    rcases List.mem_cons.1 h with heq | h
    · cases heq
      exact List.lookup_cons_self
    · have other : key ≠ k := fun same => notMem (same ▸ List.mem_map.2 ⟨(key, value), h, rfl⟩)
      rw [lookup_cons_of_ne other]
      exact ih rest h

theorem Ascending.nodup (h : Ascending ms) : (ms.map (·.1)).Nodup := by
  refine List.pairwise_map.2 (h.imp fun {m m'} lt same => ?_)
  rw [same] at lt
  exact String.lt_irrefl _ lt

theorem Ascending.tail {m : String × Json} (h : Ascending (m :: ms)) : Ascending ms :=
  (List.pairwise_cons.1 h).2

/-- A key in front of the first one of ascending members is not among them. -/
theorem Ascending.lookup_eq_none {m : String × Json} (h : Ascending (m :: ms)) (lt : key < m.1) :
    (m :: ms).lookup key = none :=
  lookup_eq_none_of_lt (List.forall_mem_cons.2
    ⟨lt, fun _ hm => String.lt_trans lt ((List.pairwise_cons.1 h).1 _ hm)⟩)

/-- What is found by a key among ascending members, one more of them with its own key. -/
theorem lookup_insertMissing (h : Ascending ms) (k : String) (v : Json) :
    (insertMissing k v ms).lookup key = (ms.lookup key).or ([(k, v)].lookup key) := by
  induction ms with
  | nil => rfl
  | cons m ms ih =>
    obtain ⟨l, w⟩ := m
    simp only [insertMissing]
    split
    · rename_i hlt
      by_cases hk : key = k
      · subst hk
        rw [h.lookup_eq_none hlt, List.lookup_cons_self, List.lookup_cons_self, Option.none_or]
      · rw [lookup_cons_of_ne hk, lookup_cons_of_ne hk, List.lookup_nil, Option.or_none]
    · split
      · rename_i hkl
        subst hkl
        by_cases hk : key = k
        · subst hk
          rw [List.lookup_cons_self, Option.some_or]
        · rw [lookup_cons_of_ne hk, lookup_cons_of_ne hk, List.lookup_nil, Option.or_none]
      · by_cases hl : key = l
        · subst hl
          rw [List.lookup_cons_self, List.lookup_cons_self, Option.some_or]
        · rw [lookup_cons_of_ne hl, lookup_cons_of_ne hl]
          exact ih h.tail

/-- By each key the last value is found that there was, in canonical form. -/
theorem lookup_canonicalMembers (key : String) (ms : List (String × Json)) :
    (canonicalMembers ms).lookup key = (ms.reverse.lookup key).map canonical := by
  induction ms with
  | nil => rfl
  | cons m ms ih =>
    obtain ⟨k, v⟩ := m
    rw [canonicalMembers, lookup_insertMissing (canonicalMembers_isCanonical ms).1, ih,
      List.reverse_cons, List.lookup_append, Option.map_or]
    by_cases hk : key = k
    · subst hk
      rw [List.lookup_cons_self, List.lookup_cons_self, Option.map_some]
    · rw [lookup_cons_of_ne hk, lookup_cons_of_ne hk]
      rfl

/-- Ascending members are settled by what is found among them. -/
theorem Ascending.eq_of_lookup (h : Ascending ms) (h' : Ascending ms')
    (same : ∀ key, ms.lookup key = ms'.lookup key) : ms = ms' := by
  induction ms generalizing ms' with
  | nil =>
    cases ms' with
    | nil => rfl
    | cons m' _ => cases (same m'.1).trans List.lookup_cons_self
  | cons m ms ih =>
    cases ms' with
    | nil => cases (same m.1).symm.trans List.lookup_cons_self
    | cons m' ms' =>
      obtain ⟨k, v⟩ := m
      obtain ⟨l, w⟩ := m'
      -- the first keys are the same, for neither is missing on the other side
      have notBefore : ¬k < l := fun hlt => by
        cases List.lookup_cons_self.symm.trans ((same k).trans (h'.lookup_eq_none hlt))
      have notBehind : ¬l < k := fun hlt => by
        cases List.lookup_cons_self.symm.trans ((same l).symm.trans (h.lookup_eq_none hlt))
      obtain rfl : k = l :=
        String.le_antisymm (String.not_lt.1 notBehind) (String.not_lt.1 notBefore)
      obtain rfl : v = w := by
        have := same k
        rwa [List.lookup_cons_self, List.lookup_cons_self, Option.some.injEq] at this
      rw [ih h.tail h'.tail fun key => ?_]
      by_cases hk : key = k
      · subst hk
        rw [lookup_eq_none_of_lt (List.pairwise_cons.1 h).1,
          lookup_eq_none_of_lt (List.pairwise_cons.1 h').1]
      · have := same key
        rwa [lookup_cons_of_ne hk, lookup_cons_of_ne hk] at this

end Lookup

/-! ### Values in canonical form -/

theorem insertMissing_of_lt {key : String} {value : Json} {ms : List (String × Json)}
    (h : ∀ m ∈ ms, key < m.1) : insertMissing key value ms = (key, value) :: ms := by
  cases ms with
  | nil => rfl
  | cons m ms => rw [insertMissing, if_pos (h m List.mem_cons_self)]

mutual

/-- A value in canonical form is its own canonical form. -/
theorem canonical_of_isCanonical : ∀ j : Json, IsCanonical j → canonical j = j
  | .arr items, h => congrArg Json.arr (canonicalItems_of_allCanonical items h)
  | .obj members, h => congrArg Json.obj (canonicalMembers_of_isCanonical members h.1 h.2)
  | .null, _ | .bool _, _ | .int _, _ | .real _, _ | .str _, _ => rfl

theorem canonicalItems_of_allCanonical : ∀ items : List Json, AllCanonical items →
    canonicalItems items = items
  | [], _ => rfl
  | item :: items, h => by
    rw [canonicalItems, canonical_of_isCanonical item h.1,
      canonicalItems_of_allCanonical items h.2]

theorem canonicalMembers_of_isCanonical : ∀ members : List (String × Json), Ascending members →
    MembersCanonical members → canonicalMembers members = members
  | [], _, _ => rfl
  | (key, value) :: members, ascending, h => by
    rw [canonicalMembers, canonical_of_isCanonical value h.1,
      canonicalMembers_of_isCanonical members ascending.tail h.2]
    exact insertMissing_of_lt (List.pairwise_cons.1 ascending).1

end

theorem canonicalItems_eq_map (items : List Json) : canonicalItems items = items.map canonical := by
  induction items with
  | nil => rfl
  | cons item items ih => rw [canonicalItems, ih, List.map_cons]

/-- The same value but for the order of members with different keys, at any depth. -/
inductive Reordered : Json → Json → Prop
  | refl (j : Json) : Reordered j j
  | trans {i j k : Json} : Reordered i j → Reordered j k → Reordered i k
  | item {j j' : Json} (items : List Json) :
      Reordered j j' → Reordered (.arr (j :: items)) (.arr (j' :: items))
  | items {items items' : List Json} (j : Json) :
      Reordered (.arr items) (.arr items') → Reordered (.arr (j :: items)) (.arr (j :: items'))
  | value {v v' : Json} (key : String) (ms : List (String × Json)) :
      Reordered v v' → Reordered (.obj ((key, v) :: ms)) (.obj ((key, v') :: ms))
  | members {ms ms' : List (String × Json)} (m : String × Json) :
      Reordered (.obj ms) (.obj ms') → Reordered (.obj (m :: ms)) (.obj (m :: ms'))
  | swap {m m' : String × Json} (ms : List (String × Json)) :
      m.1 ≠ m'.1 → Reordered (.obj (m :: m' :: ms)) (.obj (m' :: m :: ms))

theorem canonicalMembers_swap {m m' : String × Json} (h : m.1 ≠ m'.1) (ms : List (String × Json)) :
    canonicalMembers (m :: m' :: ms) = canonicalMembers (m' :: m :: ms) := by
  refine (canonicalMembers_isCanonical _).1.eq_of_lookup (canonicalMembers_isCanonical _).1 ?_
  intro key
  obtain ⟨k, v⟩ := m
  obtain ⟨k', v'⟩ := m'
  simp only [lookup_canonicalMembers, List.reverse_cons, List.append_assoc, List.lookup_append]
  by_cases first : key = k
  · subst first
    rw [lookup_cons_of_ne h, List.lookup_nil, Option.or_none, Option.none_or]
  · rw [lookup_cons_of_ne first, List.lookup_nil, Option.or_none, Option.none_or]

/-- In canonical form it makes no difference in which order there were members. -/
theorem Reordered.canonical_eq {j j' : Json} (h : Reordered j j') : j.canonical = j'.canonical := by
  induction h with
  | refl => rfl
  | trans _ _ ih ih' => exact ih.trans ih'
  | item items _ ih => rw [canonical, canonical, canonicalItems, canonicalItems, ih]
  | items j _ ih =>
    rw [canonical, canonical, canonicalItems, canonicalItems, (Json.arr.inj ih)]
  | value key ms _ ih => rw [canonical, canonical, canonicalMembers, canonicalMembers, ih]
  | members m _ ih =>
    rw [canonical, canonical, canonicalMembers, canonicalMembers, (Json.obj.inj ih)]
  | swap ms h => rw [canonical, canonical, canonicalMembers_swap h ms]

/-! ### Doubles -/

theorem rereadMembers_insertMissing (key : String) (value : Json) (ms : List (String × Json)) :
    rereadMembers (insertMissing key value ms) =
      insertMissing key value.reread (rereadMembers ms) := by
  induction ms with
  | nil => rfl
  | cons m rest ih =>
    obtain ⟨k, v⟩ := m
    simp only [insertMissing, rereadMembers]
    split
    · rfl
    · split
      · rfl
      · rw [rereadMembers, ih]

mutual

/-- Doubles may as well be read again in the canonical form. -/
theorem canonical_reread : ∀ j : Json, j.reread.canonical = j.canonical.reread
  | .arr items => congrArg Json.arr (canonicalItems_reread items)
  | .obj members => congrArg Json.obj (canonicalMembers_reread members)
  | .null | .bool _ | .int _ | .real _ | .str _ => rfl

theorem canonicalItems_reread : ∀ items : List Json,
    canonicalItems (rereadItems items) = rereadItems (canonicalItems items)
  | [] => rfl
  | item :: items => congrArg₂ List.cons (canonical_reread item) (canonicalItems_reread items)

theorem canonicalMembers_reread : ∀ members : List (String × Json),
    canonicalMembers (rereadMembers members) = rereadMembers (canonicalMembers members)
  | [] => rfl
  | (key, value) :: members => by
    rw [rereadMembers, canonicalMembers, canonicalMembers, rereadMembers_insertMissing,
      canonical_reread value, canonicalMembers_reread members]

end

/-! ### Nesting -/

mutual

/-- The greatest number of brackets around anything in the value. -/
def depth : Json → Nat
  | .arr items => itemsDepth items + 1
  | .obj members => membersDepth members + 1
  | .null | .bool _ | .int _ | .real _ | .str _ => 0

/-- The greatest depth of a value of a list. -/
def itemsDepth : List Json → Nat
  | [] => 0
  | item :: items => max (depth item) (itemsDepth items)

/-- The greatest depth of the value of a member. -/
def membersDepth : List (String × Json) → Nat
  | [] => 0
  | (_, value) :: members => max (depth value) (membersDepth members)

end

mutual

@[simp] theorem depth_reread : ∀ j : Json, j.reread.depth = j.depth
  | .arr items => congrArg (· + 1) (itemsDepth_reread items)
  | .obj members => congrArg (· + 1) (membersDepth_reread members)
  | .null | .bool _ | .int _ | .real _ | .str _ => rfl

theorem itemsDepth_reread : ∀ items : List Json, itemsDepth (rereadItems items) = itemsDepth items
  | [] => rfl
  | item :: items => congrArg₂ max (depth_reread item) (itemsDepth_reread items)

theorem membersDepth_reread : ∀ members : List (String × Json),
    membersDepth (rereadMembers members) = membersDepth members
  | [] => rfl
  | (_, value) :: members => congrArg₂ max (depth_reread value) (membersDepth_reread members)

end

/-- A value that nests so deep. -/
def nested : Nat → Json
  | 0 => .null
  | n + 1 => .arr [nested n]

theorem depth_le_membersDepth {key : String} {value : Json} {ms : List (String × Json)}
    (h : ms.lookup key = some value) : value.depth ≤ membersDepth ms := by
  induction ms with
  | nil => cases h
  | cons m ms ih =>
    obtain ⟨k, v⟩ := m
    rw [membersDepth]
    by_cases hk : key = k
    · subst hk
      obtain rfl := Option.some.inj (List.lookup_cons_self.symm.trans h)
      exact Nat.le_max_left _ _
    · rw [lookup_cons_of_ne hk] at h
      exact Nat.le_trans (ih h) (Nat.le_max_right _ _)

end Json

/-! ### Metadata -/

namespace Extra

theorem eq_of_members {x y : Extra} (h : x.members = y.members) : x = y := by
  cases x
  cases y
  cases h
  rfl

theorem ofMembers_members (x : Extra) : ofMembers x.members = x :=
  eq_of_members (Json.canonicalMembers_of_isCanonical x.members x.isCanonical.1 x.isCanonical.2)

theorem canonical_toJson (x : Extra) : x.toJson.canonical = x.toJson :=
  Json.canonical_of_isCanonical _ x.isCanonical

/-- Metadata does not depend on the order in which its members were written, at any depth. -/
theorem ofMembers_eq_of_reordered {ms ms' : List (String × Json)}
    (h : Json.Reordered (.obj ms) (.obj ms')) : ofMembers ms = ofMembers ms' :=
  eq_of_members (Json.obj.inj h.canonical_eq)

/-- Metadata with every double as it is read where it was printed. -/
def reread (x : Extra) : Extra := ofMembers (Json.rereadMembers x.members)

theorem members_reread (x : Extra) : x.reread.members = Json.rereadMembers x.members :=
  (Json.canonicalMembers_reread x.members).trans
    (congrArg Json.rereadMembers (congrArg members x.ofMembers_members))

theorem toJson_reread (x : Extra) : x.reread.toJson = x.toJson.reread :=
  congrArg Json.obj x.members_reread

theorem reread_of_isIntegral {x : Extra} (h : x.toJson.IsIntegral) : x.reread = x :=
  eq_of_members (x.members_reread.trans (Json.MembersIntegral.reread h))

/-- The value of the member that metadata fills, if there is any. -/
def slot (x : Extra) : Option Json := if x.isEmpty then none else some x.toJson

theorem member?_eq (x : Extra) : x.member? = Json.member? "extra" id x.slot := by
  rw [member?, slot]
  split <;> rfl

theorem eq_toJson_of_slot (x : Extra) {j : Json} (h : x.slot = some j) : j = x.toJson := by
  rw [slot] at h
  split at h
  · cases h
  · exact (Option.some.inj h).symm

theorem eq_empty_of_slot (x : Extra) (h : x.slot = none) : x = empty := by
  rw [slot] at h
  split at h
  · exact eq_of_members (List.isEmpty_iff.1 ‹_›)
  · cases h

theorem slot_reread (x : Extra) : x.reread.slot = x.slot.map Json.reread := by
  have none : x.reread.isEmpty = x.isEmpty := by
    rw [isEmpty, isEmpty, members_reread]
    cases x.members <;> rfl
  rw [slot, slot, none, toJson_reread]
  split <;> rfl

end Extra

end Biblio
