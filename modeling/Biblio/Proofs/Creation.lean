import Biblio.Proofs.Operations

/-! The order in which identities and editgroups are made.

    Rows stay in the order in which they were inserted, and an identity that changes keeps the time
    at which it was made, as does an editgroup that is closed. So the identities of a catalog stand
    in the order of their times, and its editgroups do, as long as the clock goes forward. This
    needs the clock to go on where an operation fails, too, although the tables go back. -/

namespace Biblio

namespace Catalog

/-- The identities and the editgroups were made at times of the clock, in the order in which these
    were read. -/
structure IsTimed (src : Source) (c : Catalog) : Prop where
  identities : (c.identities.map (·.createdAt)).Sublist ((List.range c.ticks).map src.time)
  editgroups : (c.editgroups.map (·.createdAt)).Sublist ((List.range c.ticks).map src.time)

section IsTimed
variable {src : Source} {c d : Catalog}

theorem times_sublist (src : Source) {m n : Nat} (le : m ≤ n) :
    ((List.range m).map src.time).Sublist ((List.range n).map src.time) :=
  (List.range_sublist.2 le).map _

/-- What there is keeps its place while the clock goes on. -/
theorem IsTimed.of_eq (h : c.IsTimed src) (ticks : c.ticks ≤ d.ticks)
    (identities : d.identities.map (·.createdAt) = c.identities.map (·.createdAt))
    (editgroups : d.editgroups.map (·.createdAt) = c.editgroups.map (·.createdAt)) :
    d.IsTimed src :=
  ⟨identities ▸ h.identities.trans (times_sublist src ticks),
    editgroups ▸ h.editgroups.trans (times_sublist src ticks)⟩

/-- What is made at the next time of the clock is put at the end. -/
theorem times_concat {α : Type} {f : α → Instant} {rows : List α} {row : α} {m n : Nat}
    (h : (rows.map f).Sublist ((List.range m).map src.time)) (time : f row = src.time m)
    (lt : m < n) : ((rows ++ [row]).map f).Sublist ((List.range n).map src.time) := by
  refine List.Sublist.trans ?_ (times_sublist src lt)
  rw [List.range_succ, List.map_append, List.map_append, List.map_singleton, List.map_singleton,
    time]
  exact h.append_right _

/-- A deed puts new identities and editgroups at the end and leaves the others their times. -/
theorem Does.isTimed {k : Deed} (does : c.Does src k d) (h : c.IsTimed src) : d.IsTimed src := by
  obtain ⟨⟨-, ticks⟩, step, -, time⟩ := does
  have later {rows : List Instant} (times : rows.Sublist ((List.range c.ticks).map src.time)) :
      rows.Sublist ((List.range d.ticks).map src.time) := times.trans (times_sublist src ticks)
  generalize hd : d.toStore = t at step
  cases step with
  | editgroup g _ _ _ _ _ =>
    obtain ⟨made, lt⟩ := time _ rfl
    exact ⟨hd ▸ later h.identities, hd ▸ times_concat h.editgroups made lt⟩
  | stageNew x e _ =>
    obtain ⟨made, lt⟩ := time _ rfl
    exact ⟨hd ▸ times_concat h.identities made lt, hd ▸ later h.editgroups⟩
  | accept group closedAt acceptedAt _ _ =>
    refine h.of_eq ticks ?_ ?_ <;> rw [hd]
    · simp [Store.accepted, Store.closed, Store.written]
    · exact Store.map_editgroups_closed (fun _ _ _ => rfl) _ group .accepted closedAt
  | abandon group closedAt _ =>
    refine h.of_eq ticks ?_ ?_ <;> rw [hd]
    · rfl
    · exact Store.map_editgroups_closed (fun _ _ _ => rfl) _ group .abandoned closedAt
  | _ =>
    exact h.of_eq ticks (congrArg (·.identities.map (·.createdAt)) hd)
      (congrArg (·.editgroups.map (·.createdAt)) hd)

theorem LeadsBy.isTimed {may : Deed → Prop} (h : c.LeadsBy src may d) (timed : c.IsTimed src) :
    d.IsTimed src := by
  induction h with
  | refl => exact timed
  | tail _ step ih =>
    cases step with
    | wait draws same => exact ih.of_eq draws.ticks (by rw [same]) (by rw [same])
    | deed _ does => exact does.isTimed ih

theorem pairwise_of_times {α : Type} {f : α → Instant} {rows : List α} {n : Nat}
    (increasing : src.IsIncreasing n) (h : (rows.map f).Sublist ((List.range n).map src.time)) :
    rows.Pairwise fun a b => (f a).ordinal < (f b).ordinal := by
  have clock : ((List.range n).map src.time).Pairwise fun t u => t.ordinal < u.ordinal := by
    rw [List.pairwise_map]
    exact List.pairwise_lt_range.imp_of_mem fun _ hj lt => increasing _ _ lt (List.mem_range.1 hj)
  have times := clock.sublist h
  rwa [List.pairwise_map] at times

/-- If the clock goes forward the identities stand in the order of their times. -/
theorem IsTimed.pairwise (h : c.IsTimed src) (increasing : src.IsIncreasing c.ticks) :
    c.identities.Pairwise fun x y => x.createdAt.ordinal < y.createdAt.ordinal :=
  pairwise_of_times increasing h.identities

/-- The identities and editgroups of a catalog that operations lead to were made at times of the
    clock, in the order in which these were read. -/
theorem Reachable.isTimed (h : Reachable src c) : c.IsTimed src := by
  induction h with
  | stay => exact ⟨List.nil_sublist _, List.nil_sublist _⟩
  | go op before ih => exact ((Reachable.arises before).after_leadsBy src op).isTimed ih

end IsTimed

end Catalog

/-- The clock that counts goes forward for a day. -/
theorem Source.counting_isIncreasing {count : Nat} (day : count ≤ 86400) :
    Source.counting.IsIncreasing count := by
  intro i j lt hj
  have hi : i % 86400 = i := Nat.mod_eq_of_lt (by omega)
  have hj : j % 86400 = j := Nat.mod_eq_of_lt (by omega)
  simp only [Source.counting, Instant.ordinal, hi, hj]
  omega

end Biblio
