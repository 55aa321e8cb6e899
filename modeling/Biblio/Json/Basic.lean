import Biblio.Decimal.Double
import Biblio.Decimal.WideInt

/-! JSON values.

    A number is a 64-bit integer or a double. The members of an object keep their order and may
    repeat a key; `canonical` sorts them by key, the last of several members with one key staying.
    Main statement: what `canonical` answers is in canonical form (`canonical_isCanonical`). -/

namespace Biblio

/-- A JSON value. -/
inductive Json where
  | null
  | bool (b : Bool)
  | int (n : WideInt)
  | real (d : Double)
  | str (s : String)
  | arr (items : List Json)
  | obj (members : List (String × Json))
  deriving Repr

namespace Json

mutual

/-- Equality of values is decided by structure. -/
def decEq : (a b : Json) → Decidable (a = b)
  | .null, .null => isTrue rfl
  | .bool a, .bool b => if h : a = b then isTrue (h ▸ rfl) else isFalse (by simp [h])
  | .int a, .int b => if h : a = b then isTrue (h ▸ rfl) else isFalse (by simp [h])
  | .real a, .real b => if h : a = b then isTrue (h ▸ rfl) else isFalse (by simp [h])
  | .str a, .str b => if h : a = b then isTrue (h ▸ rfl) else isFalse (by simp [h])
  | .arr a, .arr b =>
    match decEqItems a b with
    | isTrue h => isTrue (h ▸ rfl)
    | isFalse h => isFalse (by simp [h])
  | .obj a, .obj b =>
    match decEqMembers a b with
    | isTrue h => isTrue (h ▸ rfl)
    | isFalse h => isFalse (by simp [h])
  | .null, .bool _ | .null, .int _ | .null, .real _ | .null, .str _ | .null, .arr _ | .null, .obj _
  | .bool _, .null | .bool _, .int _ | .bool _, .real _ | .bool _, .str _ | .bool _, .arr _
  | .bool _, .obj _ | .int _, .null | .int _, .bool _ | .int _, .real _ | .int _, .str _
  | .int _, .arr _ | .int _, .obj _ | .real _, .null | .real _, .bool _ | .real _, .int _
  | .real _, .str _ | .real _, .arr _ | .real _, .obj _ | .str _, .null | .str _, .bool _
  | .str _, .int _ | .str _, .real _ | .str _, .arr _ | .str _, .obj _ | .arr _, .null
  | .arr _, .bool _ | .arr _, .int _ | .arr _, .real _ | .arr _, .str _ | .arr _, .obj _
  | .obj _, .null | .obj _, .bool _ | .obj _, .int _ | .obj _, .real _ | .obj _, .str _
  | .obj _, .arr _ => isFalse (by simp)

/-- Equality of lists of values. -/
def decEqItems : (a b : List Json) → Decidable (a = b)
  | [], [] => isTrue rfl
  | [], _ :: _ | _ :: _, [] => isFalse (by simp)
  | a :: as, b :: bs =>
    match decEq a b, decEqItems as bs with
    | isTrue h, isTrue h' => isTrue (h ▸ h' ▸ rfl)
    | isFalse h, _ => isFalse (by simp [h])
    | _, isFalse h => isFalse (by simp [h])

/-- Equality of lists of members. -/
def decEqMembers : (a b : List (String × Json)) → Decidable (a = b)
  | [], [] => isTrue rfl
  | [], _ :: _ | _ :: _, [] => isFalse (by simp)
  | (k, a) :: as, (l, b) :: bs =>
    if hk : k = l then
      match decEq a b, decEqMembers as bs with
      | isTrue h, isTrue h' => isTrue (hk ▸ h ▸ h' ▸ rfl)
      | isFalse h, _ => isFalse (by simp [h])
      | _, isFalse h => isFalse (by simp [h])
    else isFalse (by simp [hk])

end

instance : DecidableEq Json := decEq

/-- The integer, or the nearest one that a number can be. -/
def ofInt (n : Int) : Json := .int (.clamp n)

/-- The value, or null. -/
def ofOption {α : Type} (write : α → Json) : Option α → Json
  | none => .null
  | some a => write a

/-- The member that a value fills, left out without one. -/
def member? {α : Type} (key : String) (write : α → Json) : Option α → List (String × Json)
  | none => []
  | some a => [(key, write a)]

/-- The member that a list fills, left out without items. -/
def listMember? {α : Type} (key : String) (write : α → Json) : List α → List (String × Json)
  | [] => []
  | a :: as => [(key, .arr ((a :: as).map write))]

/-- The keys ascend strictly. -/
def Ascending (members : List (String × Json)) : Prop := members.Pairwise fun a b => a.1 < b.1

/-- Puts a member in its place among ascending ones; a member that is there already stays. -/
def insertMissing (key : String) (value : Json) : List (String × Json) → List (String × Json)
  | [] => [(key, value)]
  | (k, v) :: rest =>
    if key < k then (key, value) :: (k, v) :: rest
    else if key = k then (k, v) :: rest
    else (k, v) :: insertMissing key value rest

theorem mem_insertMissing {key : String} {value : Json} {m : String × Json}
    {ms : List (String × Json)} (h : m ∈ insertMissing key value ms) :
    m = (key, value) ∨ m ∈ ms := by
  induction ms with
  | nil => simpa [insertMissing] using h
  | cons head rest ih =>
    simp only [insertMissing] at h
    split at h
    · simpa using h
    · split at h
      · exact .inr h
      · rcases List.mem_cons.1 h with h | h
        · exact .inr (h ▸ List.mem_cons_self)
        · exact (ih h).imp id (List.mem_cons_of_mem _)

/-- Keys that ascend still do with one member more. -/
theorem Ascending.insertMissing {key : String} {value : Json} {ms : List (String × Json)}
    (h : Ascending ms) : Ascending (insertMissing key value ms) := by
  induction ms with
  | nil => simp [Json.insertMissing, Ascending]
  | cons head rest ih =>
    obtain ⟨k, v⟩ := head
    obtain ⟨hhead, hrest⟩ := List.pairwise_cons.1 h
    simp only [Json.insertMissing]
    split
    · rename_i hlt
      refine List.pairwise_cons.2 ⟨fun m hm => ?_, h⟩
      rcases List.mem_cons.1 hm with rfl | hm
      · exact hlt
      · exact String.lt_trans hlt (hhead m hm)
    · split
      · exact h
      · rename_i hlt hne
        refine List.pairwise_cons.2 ⟨fun m hm => ?_, ih hrest⟩
        rcases mem_insertMissing hm with rfl | hm
        · exact Std.lt_of_le_of_ne (String.not_lt.1 hlt) (Ne.symm hne)
        · exact hhead m hm

mutual

/-- The same value with the members of every object in canonical form. -/
def canonical : Json → Json
  | .arr items => .arr (canonicalItems items)
  | .obj members => .obj (canonicalMembers members)
  | .null => .null
  | .bool b => .bool b
  | .int n => .int n
  | .real d => .real d
  | .str s => .str s

/-- Values in canonical form. -/
def canonicalItems : List Json → List Json
  | [] => []
  | item :: items => canonical item :: canonicalItems items

/-- Members in canonical form, sorted by key, the last with a key staying. -/
def canonicalMembers : List (String × Json) → List (String × Json)
  | [] => []
  | (key, value) :: members => insertMissing key (canonical value) (canonicalMembers members)

end

mutual

/-- The keys of every object ascend strictly. -/
def IsCanonical : Json → Prop
  | .arr items => AllCanonical items
  | .obj members => Ascending members ∧ MembersCanonical members
  | .null | .bool _ | .int _ | .real _ | .str _ => True

/-- Every value of a list is canonical. -/
def AllCanonical : List Json → Prop
  | [] => True
  | item :: items => IsCanonical item ∧ AllCanonical items

/-- The value of every member is canonical. -/
def MembersCanonical : List (String × Json) → Prop
  | [] => True
  | (_, value) :: members => IsCanonical value ∧ MembersCanonical members

end

theorem MembersCanonical.insertMissing {key : String} {value : Json}
    {ms : List (String × Json)} (hv : IsCanonical value) (h : MembersCanonical ms) :
    MembersCanonical (insertMissing key value ms) := by
  induction ms with
  | nil => exact ⟨hv, trivial⟩
  | cons head rest ih =>
    obtain ⟨k, v⟩ := head
    simp only [Json.insertMissing]
    split
    · exact ⟨hv, h⟩
    · split
      · exact h
      · exact ⟨h.1, ih h.2⟩

mutual

/-- What `canonical` answers is in canonical form. -/
theorem canonical_isCanonical : ∀ j : Json, IsCanonical (canonical j)
  | .arr items => canonicalItems_isCanonical items
  | .obj members => canonicalMembers_isCanonical members
  | .null | .bool _ | .int _ | .real _ | .str _ => trivial

theorem canonicalItems_isCanonical : ∀ items : List Json, AllCanonical (canonicalItems items)
  | [] => trivial
  | item :: items => ⟨canonical_isCanonical item, canonicalItems_isCanonical items⟩

theorem canonicalMembers_isCanonical : ∀ members : List (String × Json),
    Ascending (canonicalMembers members) ∧ MembersCanonical (canonicalMembers members)
  | [] => ⟨List.Pairwise.nil, trivial⟩
  | (_, value) :: members =>
    have h := canonicalMembers_isCanonical members
    ⟨h.1.insertMissing, h.2.insertMissing (canonical_isCanonical value)⟩

end

end Json

end Biblio
