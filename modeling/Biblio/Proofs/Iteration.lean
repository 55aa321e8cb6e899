import Biblio.Proofs.Entries
import Biblio.Proofs.Permanence

/-! Going through the changelog while it grows.

    What a cursor is still to give out is what stands in its buffer and, as long as its last page
    was full, what stands behind that in the changelog. Every answer takes the first entry away
    from this, and entries that are appended come in at its end.

    A handle gives no more entries at once than its own page has. A cursor that asks for more takes
    its first page, which is not full, for the last one: it ends there, whatever else there is. -/

namespace Biblio

/-- The entries are numbered from here on. -/
def AreNumbered : Int → List ChangelogEntry → Prop
  | _, [] => True
  | n, x :: xs => x.seq = n ∧ AreNumbered (n + 1) xs

theorem areNumbered_iff {n : Int} {xs : List ChangelogEntry} :
    AreNumbered n xs ↔
      xs.map (·.seq) = (List.range xs.length).map fun i : Nat => n + (i : Int) := by
  induction xs generalizing n with
  | nil => simp [AreNumbered]
  | cons x xs ih =>
    have shift : ((fun i : Nat => n + (i : Int)) ∘ Nat.succ) = fun i : Nat => n + 1 + (i : Int) :=
      funext fun i => by simp only [Function.comp_apply]; omega
    rw [AreNumbered, ih, List.length_cons, List.range_succ_eq_map, List.map_cons, List.map_cons,
      List.map_map, shift, List.cons.injEq]
    simp

theorem areNumbered_append {n : Int} {xs ys : List ChangelogEntry} :
    AreNumbered n (xs ++ ys) ↔ AreNumbered n xs ∧ AreNumbered (n + xs.length) ys := by
  induction xs generalizing n with
  | nil => simp [AreNumbered]
  | cons x xs ih =>
    have shift : n + ((x :: xs).length : Int) = n + 1 + xs.length := by
      rw [List.length_cons]; omega
    rw [List.cons_append, AreNumbered, AreNumbered, ih, shift, and_assoc]

theorem AreNumbered.of_isPrefix {n : Int} {xs ys : List ChangelogEntry} (h : AreNumbered n ys)
    (shorter : xs <+: ys) : AreNumbered n xs := by
  obtain ⟨zs, rfl⟩ := shorter
  exact (areNumbered_append.1 h).1

/-- Behind the last entry the next number is the one that numbering has come to. -/
theorem AreNumbered.getLast?_seq {n : Int} {xs : List ChangelogEntry} (h : AreNumbered n xs)
    {x : ChangelogEntry} (last : xs.getLast? = some x) : x.seq + 1 = n + xs.length := by
  obtain ⟨ys, rfl⟩ := List.getLast?_eq_some_iff.1 last
  have seq := (areNumbered_append.1 h).2.1
  rw [List.length_append, List.length_singleton]
  omega

/-- Where entries are numbered, those from a number on stand behind the others. -/
theorem AreNumbered.filter_eq_drop {n : Int} {xs : List ChangelogEntry} (h : AreNumbered n xs)
    (m : Int) : (xs.filter fun x => m ≤ x.seq) = xs.drop (m - n).toNat := by
  induction xs generalizing n with
  | nil => simp
  | cons x xs ih =>
    obtain ⟨rfl, rest⟩ := h
    by_cases le : m ≤ x.seq
    · have here : (m - x.seq).toNat = 0 := by omega
      have there : (m - (x.seq + 1)).toNat = 0 := by omega
      rw [List.filter_cons_of_pos (by simpa using le), ih rest, here, there]
      rfl
    · have behind : (m - x.seq).toNat = (m - (x.seq + 1)).toNat + 1 := by omega
      rw [List.filter_cons_of_neg (by simpa using le), ih rest, behind, List.drop_succ_cons]

namespace Store

/-- The entries of the changelog from a number on. -/
def entriesFrom (start : Int) (s : Store) : List ChangelogEntry :=
  s.changelog.filter fun x => start ≤ x.seq

variable {s : Store}

theorem Logged.areNumbered (h : s.Logged) : AreNumbered 1 s.changelog := by
  rw [areNumbered_iff, h.seqs]
  exact List.map_congr_left fun i _ => Int.add_comm ..

theorem Logged.readChangelog_eq (h : s.Logged) (start : Int) (limit : Nat) :
    s.readChangelog start limit = (s.entriesFrom start).take limit := by
  rw [readChangelog, h.sortedChangelog_eq, entriesFrom]

theorem Logged.entriesFrom_eq (h : s.Logged) (start : Int) :
    s.entriesFrom start = s.changelog.drop (start - 1).toNat :=
  h.areNumbered.filter_eq_drop start

theorem Logged.entriesFrom_add (h : s.Logged) {start : Int} (positive : 1 ≤ start) (n : Nat) :
    s.entriesFrom (start + n) = (s.entriesFrom start).drop n := by
  have shift : (start + n - 1).toNat = (start - 1).toNat + n := by omega
  rw [h.entriesFrom_eq, h.entriesFrom_eq, List.drop_drop, shift]

/-- Entries from a number on are numbered from there. -/
theorem Logged.areNumbered_entriesFrom (h : s.Logged) {start : Int} (positive : 1 ≤ start) :
    AreNumbered start (s.entriesFrom start) := by
  rw [h.entriesFrom_eq]
  rcases Nat.lt_or_ge (start - 1).toNat s.changelog.length with long | short
  · have split := List.take_append_drop (start - 1).toNat s.changelog
    have numbered := (areNumbered_append.1 (split.symm ▸ h.areNumbered)).2
    rw [List.length_take_of_le (Nat.le_of_lt long)] at numbered
    rwa [show (1 : Int) + (start - 1).toNat = start by omega] at numbered
  · rw [List.drop_eq_nil_of_le short]
    trivial

end Store

namespace Cursor

theorem needsPage_eq_true {c : Cursor} :
    c.needsPage = true ↔ c.buffer = [] ∧ c.isDone = false := by
  simp [needsPage]

/-- A cursor that asks for pages with something on them, in front of an entry that there can be. -/
structure IsValid (c : Cursor) : Prop where
  nonempty : 0 < c.pageSize
  positive : 1 ≤ c.unfetched

/-- A cursor that asks for no more than a handle gives at once. -/
structure Fits (h : Handle) (c : Cursor) : Prop extends c.IsValid where
  within : c.pageSize ≤ h.page

/-- What a cursor is still to give out if the changelog stays as it is in these tables. -/
def remaining (s : Store) (c : Cursor) : List ChangelogEntry :=
  c.buffer ++ if c.isDone then [] else s.entriesFrom c.unfetched

section Page
variable {h : Handle} {s : Store} {c : Cursor}

/-- A page takes the first of the entries that were not fetched yet, as many as the cursor asks for
    and the handle gives at once; it is the last one if it has less than the cursor asked for. -/
theorem IsValid.withPage_eq (valid : c.IsValid) (logged : s.Logged) :
    let page := (s.entriesFrom c.unfetched).take (min c.pageSize h.page)
    c.withPage (h.readChangelog c.unfetched c.pageSize s) = { c with
      unfetched := c.unfetched + page.length
      buffer := page
      isDone := page.length < c.pageSize } := by
  intro page
  have read : h.readChangelog c.unfetched c.pageSize s = page := by
    rw [Handle.readChangelog, logged.readChangelog_eq]
  have numbered : AreNumbered c.unfetched page :=
    (logged.areNumbered_entriesFrom valid.positive).of_isPrefix (List.take_prefix ..)
  rw [read, withPage]
  congr 1
  split
  · next x last => exact numbered.getLast?_seq last
  · next none => simp [List.getLast?_eq_none_iff.1 none]

/-- Fetching a page changes nothing of what a cursor is still to give out, if it asks for no more
    than the handle gives. -/
theorem Fits.remaining_withPage (fits : c.Fits h) (logged : s.Logged)
    (needs : c.needsPage = true) :
    (c.withPage (h.readChangelog c.unfetched c.pageSize s)).remaining s = c.remaining s := by
  obtain ⟨empty, undone⟩ := needsPage_eq_true.1 needs
  rw [fits.withPage_eq logged, Nat.min_eq_left fits.within, remaining, remaining, empty, undone]
  simp only [List.nil_append, Bool.false_eq_true, if_false, decide_eq_true_eq]
  split_ifs with short
  · rw [List.append_nil, List.take_of_length_le]
    rw [List.length_take] at short
    omega
  · have full : ((s.entriesFrom c.unfetched).take c.pageSize).length = c.pageSize :=
      Nat.le_antisymm (List.length_take_le ..) (Nat.not_lt.1 short)
    rw [full, logged.entriesFrom_add fits.positive, List.take_append_drop]

/-- A cursor whose last page was full has something to give out. -/
theorem IsValid.buffer_withPage (valid : c.IsValid) (logged : s.Logged) :
    let d := c.withPage (h.readChangelog c.unfetched c.pageSize s)
    d.buffer = [] → d.isDone = true := by
  intro d empty
  simp only [d, valid.withPage_eq logged] at empty ⊢
  rw [empty]
  exact decide_eq_true valid.nonempty

theorem Fits.withPage (fits : c.Fits h) (logged : s.Logged) :
    (c.withPage (h.readChangelog c.unfetched c.pageSize s)).Fits h where
  nonempty := fits.nonempty
  positive := by
    have positive := fits.positive
    simp only [fits.withPage_eq logged]
    omega
  within := fits.within

end Page

/-! ### Giving out entries -/

section Next
variable {h : Handle} {s : Store} {c : Cursor}

theorem pop_cons {x : ChangelogEntry} {rest : List ChangelogEntry} (buffer : c.buffer = x :: rest) :
    c.pop = (some x, { c with buffer := rest }) := by
  rw [pop, buffer]

theorem pop_nil (buffer : c.buffer = []) : c.pop = (none, c) := by
  rw [pop, buffer]

/-- The first entry of what a cursor is still to give out is given out, and nothing else. -/
theorem pop_cases (c : Cursor) (s : Store) (finished : c.buffer = [] → c.isDone = true) :
    (∃ x d, c.pop = (some x, d) ∧ c.remaining s = x :: d.remaining s ∧
        d.pageSize = c.pageSize ∧ d.unfetched = c.unfetched) ∨
      c.pop = (none, c) ∧ c.remaining s = [] := by
  cases buffer : c.buffer with
  | cons x rest =>
    exact .inl ⟨x, _, pop_cons buffer, by simp [remaining, buffer], rfl, rfl⟩
  | nil => exact .inr ⟨pop_nil buffer, by simp [remaining, buffer, finished buffer]⟩

/-- To give out an entry changes neither the size of the pages nor what was fetched. -/
theorem Fits.of_same {d : Cursor} (fits : c.Fits h) (size : d.pageSize = c.pageSize)
    (unfetched : d.unfetched = c.unfetched) : d.Fits h where
  nonempty := size ▸ fits.nonempty
  positive := unfetched ▸ fits.positive
  within := size ▸ fits.within

theorem Fits.advance_cases (fits : c.Fits h) (logged : s.Logged) :
    (∃ x d, h.advance s c = (some x, d) ∧ c.remaining s = x :: d.remaining s ∧ d.Fits h) ∨
      (∃ d, h.advance s c = (none, d)) ∧ c.remaining s = [] := by
  by_cases needs : c.needsPage = true
  · have advance : h.advance s c =
        (c.withPage (h.readChangelog c.unfetched c.pageSize s)).pop := by
      rw [Handle.advance, next, if_pos needs]
    rw [advance, ← fits.remaining_withPage logged needs]
    rcases pop_cases _ s (fits.buffer_withPage logged) with
      ⟨x, d, given, remaining, size, unfetched⟩ | ⟨given, remaining⟩
    · exact .inl ⟨x, d, given, remaining, (fits.withPage logged).of_same size unfetched⟩
    · exact .inr ⟨⟨_, given⟩, remaining⟩
  · have advance : h.advance s c = c.pop := by rw [Handle.advance, next, if_neg needs]
    have ended : c.buffer = [] → c.isDone = true := by
      intro empty
      simpa [needsPage, empty] using needs
    rw [advance]
    rcases pop_cases c s ended with ⟨x, d, given, remaining, size, unfetched⟩ | ⟨given, remaining⟩
    · exact .inl ⟨x, d, given, remaining, fits.of_same size unfetched⟩
    · exact .inr ⟨⟨_, given⟩, remaining⟩

end Next

end Cursor

/-- What a cursor gives out in the changelog as it is now, no more than `count` entries. -/
def Handle.read (h : Handle) (s : Store) (count : Nat) (c : Cursor) : List ChangelogEntry :=
  (c.take (fun start limit => h.readChangelog start limit s) count).1

/-- A cursor gives out what it is still to give out. -/
theorem Cursor.Fits.read_eq {h : Handle} {s : Store} {c : Cursor} (fits : c.Fits h)
    (logged : s.Logged) (count : Nat) : h.read s count c = (c.remaining s).take count := by
  induction count generalizing c with
  | zero => rfl
  | succ n ih =>
    rw [Handle.read, take]
    rcases fits.advance_cases logged with ⟨x, d, given, remaining, fits⟩ | ⟨⟨d, given⟩, remaining⟩
    · rw [Handle.advance] at given
      rw [given, remaining, List.take_succ_cons, ← ih fits]
      rfl
    · rw [Handle.advance] at given
      rw [given, remaining]
      rfl

/-- A cursor that starts in front of an entry, and asks for no more than the handle gives, gives out
    the entries from there on. -/
theorem Handle.read_start {h : Handle} {s : Store} (logged : s.Logged) {start : Int}
    (positive : 1 ≤ start) {size : Nat} (within : size ≤ h.page) (count : Nat) :
    h.read s count (Cursor.start start size) = (s.entriesFrom start).take count := by
  have fits : (Cursor.start start size).Fits h := {
    nonempty := Nat.le_max_right ..
    positive := Int.le_max_right ..
    within := Nat.max_le.2 ⟨within, h.page_pos⟩ }
  rw [fits.read_eq logged, Cursor.remaining]
  simp [Cursor.start, Int.max_eq_left positive]

/-- Of the entries that there are, those that a cursor with pages of this size can reach: all of
    them, or those of one page if it asks for more than the handle gives at once. -/
def Handle.withinReach (h : Handle) (size : Nat) (xs : List ChangelogEntry) : List ChangelogEntry :=
  if size ≤ h.page then xs else xs.take h.page

/-! ### Going through a changelog that grows -/

/-- What happens while somebody goes through the changelog. -/
inductive Turn where
  /-- An operation of anybody. -/
  | operation (e : Event)
  /-- The next entry is asked for; a page that has to be fetched cannot be if there is a fault. -/
  | call (fault : Option CatalogError)

/-- The next entry is asked for. -/
def Turn.isCall : Turn → Bool
  | operation _ => false
  | call _ => true

/-- Somebody's way through the changelog of a catalog. -/
structure Iteration where
  catalog : Catalog
  cursor : Cursor
  /-- What was answered to the calls. -/
  answers : List (Except CatalogError (Option ChangelogEntry))
  /-- The tables that the last page was fetched from. -/
  fetched : Option Store

/-- Fetches a page of the changelog as it is now, unless there is a fault. -/
def Handle.fetch (h : Handle) (fault : Option CatalogError) (s : Store) (start : Int)
    (limit : Nat) : Except CatalogError (List ChangelogEntry) :=
  match fault with
  | some err => .error err
  | none => .ok (h.readChangelog start limit s)

namespace Iteration

/-- The way that starts in front of the entry with this number, with pages of this size. -/
def start (c : Catalog) (seq : Int) (size : Nat) : Iteration := ⟨c, .start seq size, [], none⟩

/-- The way behind a turn. -/
def turn (h : Handle) (src : Source) (it : Iteration) : Turn → Iteration
  | .operation e => { it with catalog := e.operation.after src it.catalog }
  | .call fault =>
    let (answer, cursor) := it.cursor.tryNext (h.fetch fault it.catalog.toStore)
    { it with
      cursor
      answers := it.answers ++ [answer]
      fetched := if it.cursor.needsPage && fault.isNone then some it.catalog.toStore
        else it.fetched }

/-- The way behind turns that follow each other. -/
def run (h : Handle) (src : Source) (turns : List Turn) (it : Iteration) : Iteration :=
  turns.foldl (turn h src) it

/-- The entries that were given out, the failure if there was one, and how often it was answered
    that there are no more. -/
structure Account where
  given : List ChangelogEntry
  failure : Option CatalogError
  ends : Nat

/-- The answers that are accounted for. -/
def Account.answers (a : Account) : List (Except CatalogError (Option ChangelogEntry)) :=
  a.given.map (fun x => .ok (some x)) ++ a.failure.toList.map .error
    ++ List.replicate a.ends (.ok none)

/-- What holds on the way: the entries that were given out, and then those of the buffer, are those
    of the changelog from the first number on; all of them that are within reach, when it is
    over. -/
structure Holds (h : Handle) (size : Nat) (first : Int) (it : Iteration) (a : Account) : Prop where
  answers : it.answers = a.answers
  pageSize : it.cursor.pageSize = max size 1
  /-- What was fetched is what stands in the changelog. -/
  due : a.given ++ it.cursor.buffer <+: it.catalog.entriesFrom first
  unfetched : it.cursor.unfetched = first + (a.given ++ it.cursor.buffer).length
  /-- The last page had all that there was and that is within reach. -/
  complete : it.cursor.isDone = true → a.failure = none →
    ∃ s, it.fetched = some s ∧
      a.given ++ it.cursor.buffer = h.withinReach size (s.entriesFrom first)
  /-- A cursor that asks for too much fetches one page only. -/
  untouched : it.cursor.isDone = false → h.page < size → a.given ++ it.cursor.buffer = []
  failed : a.failure.isSome = true → it.cursor.isDone = true ∧ it.cursor.buffer = []
  ended : 0 < a.ends → it.cursor.isDone = true ∧ it.cursor.buffer = []

variable {h : Handle} {src : Source} {size : Nat} {first : Int} {it : Iteration} {a : Account}

section Holds

theorem Holds.isValid (holds : it.Holds h size first a) (positive : 1 ≤ first) :
    it.cursor.IsValid where
  nonempty := holds.pageSize ▸ Nat.le_max_right ..
  positive := by
    rw [holds.unfetched]
    omega

theorem Holds.fits (holds : it.Holds h size first a) (positive : 1 ≤ first)
    (within : size ≤ h.page) : it.cursor.Fits h :=
  { holds.isValid positive with
    within := holds.pageSize ▸ Nat.max_le.2 ⟨within, h.page_pos⟩ }

theorem Holds.isPrefix (holds : it.Holds h size first a) :
    a.given <+: it.catalog.entriesFrom first :=
  (List.prefix_append ..).trans holds.due

/-- Nothing was over yet if something is to be given out, or to be fetched. -/
theorem Holds.undone (holds : it.Holds h size first a)
    (more : ¬(it.cursor.isDone = true ∧ it.cursor.buffer = [])) :
    a.failure = none ∧ a.ends = 0 := by
  refine ⟨?_, ?_⟩
  · by_contra failed
    exact more (holds.failed (Option.isSome_iff_ne_none.2 failed))
  · by_contra ended
    exact more (holds.ended (Nat.pos_of_ne_zero ended))

/-- Entries that are appended come in behind the others. -/
theorem Holds.operation (holds : it.Holds h size first a) {t : Catalog}
    (grows : it.catalog.changelog <+: t.changelog) :
    Holds h size first { it with catalog := t } a :=
  { holds with due := holds.due.trans (grows.filter _) }

/-- The next page has the entries behind those that were given out. -/
theorem Holds.fetch (holds : it.Holds h size first a) (positive : 1 ≤ first)
    (logged : it.catalog.Logged) (needs : it.cursor.needsPage = true) :
    Holds h size first { it with
      cursor := it.cursor.withPage
        (h.readChangelog it.cursor.unfetched it.cursor.pageSize it.catalog.toStore)
      fetched := some it.catalog.toStore } a := by
  obtain ⟨empty, undone⟩ := Cursor.needsPage_eq_true.1 needs
  obtain ⟨unfailed, unended⟩ := holds.undone (by simp [undone])
  have unfetched : it.cursor.unfetched = first + a.given.length := by
    rw [holds.unfetched, empty, List.append_nil]
  have split : a.given ++ it.catalog.entriesFrom it.cursor.unfetched =
      it.catalog.entriesFrom first := by
    obtain ⟨rest, heq⟩ := holds.isPrefix
    rw [unfetched, logged.entriesFrom_add positive, ← heq, List.drop_left]
  have pageSize := holds.pageSize
  rw [(holds.isValid positive).withPage_eq logged]
  exact {
    answers := holds.answers
    pageSize
    due := by
      rw [← split]
      exact (List.prefix_append_right_inj _).2 (List.take_prefix ..)
    unfetched := by
      simp only [List.length_append]
      omega
    complete := fun done _ => by
      have short := of_decide_eq_true done
      refine ⟨_, rfl, ?_⟩
      rw [Handle.withinReach, ← split]
      split_ifs with within
      · rw [List.length_take] at short
        rw [List.take_of_length_le (by have := h.page_pos; omega)]
      · have nothing : a.given = [] := by
          simpa [empty] using holds.untouched undone (Nat.lt_of_not_le within)
        rw [nothing, Nat.min_eq_right (by omega), List.nil_append, List.nil_append]
    untouched := fun full above => by
      have long := of_decide_eq_false full
      rw [List.length_take] at long
      omega
    failed := by simp [unfailed]
    ended := by simp [unended] }

/-- The first entry of the buffer is given out; if there is none it is over. -/
theorem Holds.pop (holds : it.Holds h size first a)
    (finished : it.cursor.buffer = [] → it.cursor.isDone = true) :
    ∃ b : Account, b.failure = a.failure ∧ Holds h size first { it with
      cursor := it.cursor.pop.2
      answers := it.answers ++ [.ok it.cursor.pop.1] } b := by
  cases buffer : it.cursor.buffer with
  | cons x rest =>
    obtain ⟨unfailed, unended⟩ := holds.undone (by simp [buffer])
    have given : a.given ++ [x] ++ rest = a.given ++ it.cursor.buffer := by simp [buffer]
    refine ⟨{ a with given := a.given ++ [x] }, rfl, ?_⟩
    rw [Cursor.pop_cons buffer]
    exact {
      answers := by simp [holds.answers, Account.answers, unfailed, unended]
      pageSize := holds.pageSize
      due := given ▸ holds.due
      unfetched := given ▸ holds.unfetched
      complete := given ▸ holds.complete
      untouched := given ▸ holds.untouched
      failed := by simp [unfailed]
      ended := by simp [unended] }
  | nil =>
    refine ⟨{ a with ends := a.ends + 1 }, rfl, ?_⟩
    rw [Cursor.pop_nil buffer]
    exact { holds with
      answers := by
        simp only [holds.answers, Account.answers, List.replicate_succ', List.append_assoc]
      ended := fun _ => ⟨finished buffer, buffer⟩ }

/-- A page that cannot be fetched is the end. -/
theorem Holds.fail (holds : it.Holds h size first a) (needs : it.cursor.needsPage = true)
    (err : CatalogError) :
    Holds h size first { it with
      cursor := it.cursor.withoutPage
      answers := it.answers ++ [.error err] } { a with failure := some err } := by
  obtain ⟨empty, undone⟩ := Cursor.needsPage_eq_true.1 needs
  obtain ⟨unfailed, unended⟩ := holds.undone (by simp [undone])
  exact { holds with
    answers := by simp [holds.answers, Account.answers, unfailed, unended]
    complete := fun _ failure => by cases failure
    untouched := fun undone => by cases undone
    failed := fun _ => ⟨rfl, empty⟩
    ended := by simp [unended] }

theorem turn_fetch (needs : it.cursor.needsPage = true) :
    let popped := (it.cursor.withPage
      (h.readChangelog it.cursor.unfetched it.cursor.pageSize it.catalog.toStore)).pop
    it.turn h src (.call none) = { it with
      cursor := popped.2
      answers := it.answers ++ [.ok popped.1]
      fetched := some it.catalog.toStore } := by
  simp [turn, Cursor.tryNext, needs, Handle.fetch]

theorem turn_fail (needs : it.cursor.needsPage = true) (err : CatalogError) :
    it.turn h src (.call (some err)) = { it with
      cursor := it.cursor.withoutPage
      answers := it.answers ++ [.error err] } := by
  simp [turn, Cursor.tryNext, needs, Handle.fetch]

/-- What a call preserves. -/
theorem Holds.call (holds : it.Holds h size first a) (positive : 1 ≤ first)
    (logged : it.catalog.Logged) (fault : Option CatalogError) :
    ∃ b : Account, (b.failure = a.failure ∨ b.failure = fault) ∧
      (it.turn h src (.call fault)).Holds h size first b := by
  by_cases needs : it.cursor.needsPage = true
  · cases fault with
    | some err =>
      rw [turn_fail needs]
      exact ⟨_, .inr rfl, holds.fail needs err⟩
    | none =>
      have fetched := holds.fetch positive logged needs
      have finished := (holds.isValid positive).buffer_withPage (h := h) logged
      obtain ⟨b, same, holds⟩ := fetched.pop finished
      rw [turn_fetch needs]
      exact ⟨b, .inl same, holds⟩
  · have finished : it.cursor.buffer = [] → it.cursor.isDone = true :=
      fun empty => by simpa [Cursor.needsPage, empty] using needs
    obtain ⟨b, same, holds⟩ := holds.pop finished
    refine ⟨b, .inl same, ?_⟩
    simpa [turn, Cursor.tryNext, needs] using holds

end Holds

/-! ### Runs -/

theorem run_cons (t : Turn) (turns : List Turn) (it : Iteration) :
    it.run h src (t :: turns) = (it.turn h src t).run h src turns := rfl

/-- A turn leads to a catalog that operations lead to, with all that was in the changelog. -/
theorem turn_catalog (reachable : Catalog.Reachable src it.catalog) (t : Turn) :
    Catalog.Reachable src (it.turn h src t).catalog ∧
      it.catalog.changelog <+: (it.turn h src t).catalog.changelog := by
  cases t with
  | operation e =>
    have step : Catalog.Leads src it.catalog (e.operation.after src it.catalog) := .go _ .stay
    have arises := reachable.arises
    exact ⟨reachable.trans step, ((step.becomes arises).retains arises).changelog⟩
  | call fault => exact ⟨reachable, List.prefix_rfl⟩

theorem run_catalog (reachable : Catalog.Reachable src it.catalog) (turns : List Turn) :
    Catalog.Reachable src (it.run h src turns).catalog ∧
      it.catalog.changelog <+: (it.run h src turns).catalog.changelog := by
  induction turns generalizing it with
  | nil => exact ⟨reachable, List.prefix_rfl⟩
  | cons t turns ih =>
    obtain ⟨there, grows⟩ := turn_catalog (h := h) reachable t
    obtain ⟨there', grows'⟩ := ih there
    exact ⟨there', grows.trans grows'⟩

/-- What a whole run preserves; a failure is that of a page that could not be fetched. -/
theorem Holds.run (holds : it.Holds h size first a) (positive : 1 ≤ first)
    (reachable : Catalog.Reachable src it.catalog) (turns : List Turn) :
    ∃ b : Account, (it.run h src turns).Holds h size first b ∧
      ∀ err, b.failure = some err → a.failure = some err ∨ .call (some err) ∈ turns := by
  induction turns generalizing it a with
  | nil => exact ⟨a, holds, fun err failed => .inl failed⟩
  | cons t turns ih =>
    obtain ⟨there, grows⟩ := turn_catalog (h := h) reachable t
    cases t with
    | operation e =>
      obtain ⟨b, holds, failed⟩ := ih (holds.operation grows) there
      exact ⟨b, holds, fun err hb => (failed err hb).imp id (List.mem_cons_of_mem _)⟩
    | call fault =>
      have logged : it.catalog.Logged := reachable.arises.logged
      obtain ⟨b, same, holds⟩ : ∃ b : Account, (b.failure = a.failure ∨ b.failure = fault) ∧
          (it.turn h src (.call fault)).Holds h size first b := holds.call positive logged fault
      obtain ⟨b', holds, failed⟩ := ih holds there
      refine ⟨b', holds, fun err hb' => ?_⟩
      rcases failed err hb' with hb | later
      · rcases same with before | now
        · exact .inl (before ▸ hb)
        · exact .inr (by simp [now ▸ hb])
      · exact .inr (List.mem_cons_of_mem _ later)

/-- When it is over every call is answered that there is nothing more. -/
theorem run_of_over (finished : it.cursor.isDone = true ∧ it.cursor.buffer = [])
    (turns : List Turn) :
    (it.run h src turns).answers =
        it.answers ++ List.replicate (turns.countP Turn.isCall) (.ok none) ∧
      (it.run h src turns).cursor = it.cursor := by
  induction turns generalizing it with
  | nil => simp [run]
  | cons t turns ih =>
    rw [run_cons]
    cases t with
    | operation e => exact ih finished
    | call fault =>
      have same : it.turn h src (.call fault) =
          { it with answers := it.answers ++ [.ok none] } := by
        simp [turn, Cursor.tryNext, Cursor.needsPage, finished.1, Cursor.pop_nil finished.2]
      rw [same, List.countP_cons_of_pos rfl, List.replicate_succ]
      obtain ⟨answers, cursor⟩ := @ih { it with answers := it.answers ++ [.ok none] } finished
      exact ⟨answers.trans (List.append_assoc ..), cursor⟩

/-- Behind a page that could not be fetched every call is answered that there is nothing more, and
    the position stays where it is. -/
theorem run_of_failed (needs : it.cursor.needsPage = true) (err : CatalogError)
    (turns : List Turn) :
    let failed := (it.turn h src (.call (some err))).run h src turns
    failed.answers =
        it.answers ++ .error err :: List.replicate (turns.countP Turn.isCall) (.ok none) ∧
      failed.cursor.position = it.cursor.position := by
  intro failed
  obtain ⟨empty, -⟩ := Cursor.needsPage_eq_true.1 needs
  obtain ⟨answers, cursor⟩ := @run_of_over h src
    { it with cursor := it.cursor.withoutPage, answers := it.answers ++ [.error err] }
    ⟨rfl, empty⟩ turns
  have same : it.cursor.withoutPage.position = it.cursor.position := rfl
  simp only [failed, turn_fail needs]
  exact ⟨answers.trans (List.append_assoc ..), (congrArg Cursor.position cursor).trans same⟩

/-- Every call has one answer. -/
theorem length_answers_run (turns : List Turn) (it : Iteration) :
    (it.run h src turns).answers.length = it.answers.length + turns.countP Turn.isCall := by
  induction turns generalizing it with
  | nil => rfl
  | cons t turns ih =>
    rw [run_cons, ih]
    cases t with
    | operation e => rfl
    | call fault =>
      rw [List.countP_cons_of_pos rfl, turn, List.length_append, List.length_singleton]
      omega

/-! ### What the way is like -/

theorem holds_start (h : Handle) (c : Catalog) (seq : Int) (size : Nat) :
    (start c seq size).Holds h size (max seq 1) ⟨[], none, 0⟩ where
  answers := rfl
  pageSize := rfl
  due := List.nil_prefix
  unfetched := by simp [start, Cursor.start]
  complete done := by cases done
  untouched _ _ := rfl
  failed none := by cases none
  ended none := absurd none (Nat.lt_irrefl 0)

/-- The position is the number of the first entry that was not given out. -/
theorem Holds.position_eq (holds : it.Holds h size first a) (positive : 1 ≤ first)
    (logged : it.catalog.Logged) : it.cursor.position = first + a.given.length := by
  unfold Cursor.position
  split
  · next x rest buffer =>
    have numbered := (logged.areNumbered_entriesFrom positive).of_isPrefix holds.due
    rw [buffer] at numbered
    exact (areNumbered_append.1 numbered).2.1
  · next buffer => rw [holds.unfetched, buffer, List.append_nil]

/-- What was not given out yet is what stands in the changelog from the position on. -/
theorem Holds.entriesFrom_position (holds : it.Holds h size first a) (positive : 1 ≤ first)
    (logged : it.catalog.Logged) : a.given ++ it.catalog.entriesFrom it.cursor.position =
      it.catalog.entriesFrom first := by
  obtain ⟨rest, heq⟩ := holds.isPrefix
  rw [holds.position_eq positive logged, logged.entriesFrom_add positive, ← heq, List.drop_left]

/-- As long as nothing was appended since the last page was fetched, a cursor that does not ask for
    too much is still to give out all that it did not give out. -/
theorem Holds.remaining_eq (holds : it.Holds h size first a) (positive : 1 ≤ first)
    (logged : it.catalog.Logged) (within : size ≤ h.page) (unfailed : a.failure = none)
    (still : ∀ s, it.fetched = some s → s.changelog = it.catalog.changelog) :
    it.cursor.remaining it.catalog.toStore = it.catalog.entriesFrom it.cursor.position := by
  suffices split : a.given ++ it.cursor.remaining it.catalog.toStore =
      a.given ++ it.catalog.entriesFrom it.cursor.position from List.append_cancel_left split
  rw [holds.entriesFrom_position positive logged, Cursor.remaining, ← List.append_assoc]
  cases done : it.cursor.isDone with
  | true =>
    obtain ⟨s, fetched, all⟩ := holds.complete done unfailed
    simp [all, Handle.withinReach, within, Store.entriesFrom, still s fetched]
  | false =>
    obtain ⟨rest, heq⟩ := holds.due
    simp only [Bool.false_eq_true, if_false]
    rw [holds.unfetched, logged.entriesFrom_add positive, ← heq, List.drop_left]

/-- Of more calls than there are entries, with one to spare for a failure, the last is answered that
    there is nothing more. -/
theorem Holds.getLast?_answers (holds : it.Holds h size first a)
    (many : it.catalog.changelog.length + 1 < it.answers.length) :
    it.answers.getLast? = some (.ok none) := by
  have given : a.given.length ≤ it.catalog.changelog.length :=
    Nat.le_trans holds.isPrefix.length_le (List.length_filter_le ..)
  have failure : a.failure.toList.length ≤ 1 := by cases a.failure <;> simp
  rw [holds.answers] at many ⊢
  simp only [Account.answers, List.length_append, List.length_map, List.length_replicate] at many
  obtain ⟨n, ends⟩ : ∃ n, a.ends = n + 1 := ⟨a.ends - 1, by omega⟩
  simp [Account.answers, ends, List.replicate_succ']

end Iteration

namespace Catalog

open Iteration in
/-- Going through the changelog loses and repeats nothing, however it grows meanwhile. The entries
    that are given out are those of the changelog from the first number on, in their order and
    numbered without a gap; then at most one failure is answered, and then only that there is
    nothing more. It is over after finitely many calls once the changelog stays as it is. The
    position is the number of the first entry that was not given out, also behind a failure, which
    is answered once; a cursor that starts there, whatever handle it reads through, gives out all
    entries from there on if it asks for no more than that handle gives at once.

    A cursor that asks its own handle for no more than that is not over before all entries were
    given out that were there when the last page was fetched, unless that failed, and gives out
    what a new one would. One that asks for more gives out the first page and is over. -/
theorem Reachable.iteration_loses_and_repeats_nothing {src : Source} {c : Catalog}
    (h : Reachable src c) (handle : Handle) (seq : Int) (size : Nat) (turns : List Turn) :
    let first := max seq 1
    let it := (start c seq size).run handle src turns
    ∃ a : Account, it.answers = a.answers ∧
      a.given <+: it.catalog.entriesFrom first ∧
      a.given.map (·.seq) = ((List.range a.given.length).map fun i : Nat => first + (i : Int)) ∧
      (∀ err, a.failure = some err → .call (some err) ∈ turns) ∧
      (a.failure = none → 0 < a.ends →
        ∃ s, it.fetched = some s ∧
          (size ≤ handle.page → a.given = s.entriesFrom first) ∧
          (handle.page < size → a.given = (s.entriesFrom first).take handle.page)) ∧
      (∀ more, (it.run handle src more).catalog.changelog = it.catalog.changelog →
        it.catalog.changelog.length + 1 < more.countP Turn.isCall →
        (it.run handle src more).answers.getLast? = some (.ok none)) ∧
      it.cursor.position = first + a.given.length ∧
      (∀ (other : Handle) (size' : Nat), size' ≤ other.page →
        ∀ count, other.read it.catalog.toStore count (.start it.cursor.position size') =
          (it.catalog.entriesFrom it.cursor.position).take count) ∧
      (size ≤ handle.page → a.failure = none →
        (∀ s, it.fetched = some s → s.changelog = it.catalog.changelog) →
        ∀ count, handle.read it.catalog.toStore count it.cursor =
          (it.catalog.entriesFrom it.cursor.position).take count) ∧
      ∀ err more, it.cursor.needsPage = true →
        let failed := (it.turn handle src (.call (some err))).run handle src more
        failed.answers =
            it.answers ++ .error err :: List.replicate (more.countP Turn.isCall) (.ok none) ∧
          failed.cursor.position = it.cursor.position := by
  intro first it
  have positive : 1 ≤ first := Int.le_max_right ..
  have opened : Reachable src (start c seq size).catalog := h
  obtain ⟨reachable, -⟩ := run_catalog (h := handle) opened turns
  have logged : it.catalog.Logged := reachable.arises.logged
  obtain ⟨a, holds, failures⟩ := (holds_start handle c seq size).run positive opened turns
  have position := holds.position_eq positive logged
  refine ⟨a, holds.answers, holds.isPrefix, ?_, ?_, ?_, ?_, position, ?_, ?_, ?_⟩
  · exact areNumbered_iff.1 ((logged.areNumbered_entriesFrom positive).of_isPrefix holds.isPrefix)
  · exact fun err failed => (failures err failed).resolve_left (by simp)
  · intro unfailed ended
    obtain ⟨done, empty⟩ := holds.ended ended
    obtain ⟨s, fetched, all⟩ := holds.complete done unfailed
    rw [empty, List.append_nil] at all
    refine ⟨s, fetched, fun within => ?_, fun above => ?_⟩
    · rw [all, Handle.withinReach, if_pos within]
    · rw [all, Handle.withinReach, if_neg (Nat.not_le.2 above)]
  · intro more still many
    obtain ⟨b, holds', -⟩ := holds.run positive reachable more
    refine holds'.getLast?_answers ?_
    rw [still, length_answers_run]
    omega
  · intro other size' within count
    have there : 1 ≤ it.cursor.position :=
      position ▸ Int.le_trans positive (Int.le_add_of_nonneg_right (Int.natCast_nonneg _))
    exact Handle.read_start logged there within count
  · intro within unfailed still count
    rw [(holds.fits positive within).read_eq logged,
      holds.remaining_eq positive logged within unfailed still]
  · exact fun err more needs => run_of_failed needs err more

/-- A handle that reads the changelog entry by entry. -/
def singly : Handle := ⟨{ maxChangelogPage := 0 }, .nth 0⟩

/-- The two entries of the example are given out one page each; then it is over. -/
theorem recorded_iteration_loses_and_repeats_nothing :
    ((Iteration.start recorded (-7) 0).run singly .counting
        (List.replicate 4 (.call none))).answers.getLast? = some (.ok none) ∧
      singly.read recorded.toStore 5 (.start (-7) 1) = recorded.changelog := by
  obtain ⟨a, answers, -, -, failures, -, finished, position, -, old, -⟩ :=
    Reachable.iteration_loses_and_repeats_nothing
      (show Reachable .counting recorded from leads_play ..) singly (-7) 0 []
  have unfailed : a.failure = none :=
    Option.eq_none_iff_forall_ne_some.2 fun err failed => by simpa using failures err failed
  refine ⟨finished (List.replicate 4 (.call none)) (by decide +kernel) (by decide +kernel), ?_⟩
  refine (old (by decide) unfailed (fun s fetched => nomatch fetched) 5).trans ?_
  decide +kernel

open Iteration in
/-- A cursor that asks for a hundred entries where one is given at once is over behind the first
    entry, although a second one was there all the time. -/
theorem wide_pages_lose_an_entry :
    Reachable .counting recorded ∧ (recorded.entriesFrom 1).map (·.seq) = [1, 2] ∧
      ((start recorded 1 100).run singly .counting (List.replicate 3 (.call none))).answers =
        [.ok recorded.changelog.head?, .ok none, .ok none] := by
  have reachable : Reachable .counting recorded := leads_play ..
  have page : singly.readChangelog 1 100 recorded.toStore = recorded.changelog.take 1 := by
    rw [Handle.readChangelog, reachable.arises.logged.readChangelog_eq]
    decide +kernel
  refine ⟨reachable, by decide +kernel, ?_⟩
  rw [List.replicate_succ, run_cons, turn_fetch rfl]
  simp only [start, Cursor.start, Int.max_self, Nat.max_eq_left, Nat.reduceLeDiff, page]
  rw [(run_of_over (by decide +kernel) _).1]
  decide +kernel

end Catalog

end Biblio
