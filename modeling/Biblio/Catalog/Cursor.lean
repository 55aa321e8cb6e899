import Biblio.Record.Basic

/-! Going through the changelog page by page.

    A cursor fetches the next page when it has given out the last one. A page that is not full, or
    one that cannot be fetched, is the last. Entries that are appended meanwhile appear on later
    pages. -/

namespace Biblio

/-- A place in the changelog, with the entries that were fetched and not given out yet. -/
structure Cursor where
  /-- The first number that was not fetched yet. -/
  unfetched : Int
  pageSize : Nat
  buffer : List ChangelogEntry
  isDone : Bool
  deriving DecidableEq

namespace Cursor

/-- A cursor in front of the entry with this number; pages have at least one entry. -/
def start (seq : Int) (pageSize : Nat) : Cursor where
  unfetched := max seq 1
  pageSize := max pageSize 1
  buffer := []
  isDone := false

/-- The number that the next entry has, or a later one has. -/
def position (c : Cursor) : Int :=
  match c.buffer with
  | x :: _ => x.seq
  | [] => c.unfetched

/-- The next entry is on a page that was not fetched yet. -/
def needsPage (c : Cursor) : Bool := c.buffer.isEmpty && !c.isDone

/-- The cursor with a page fetched. -/
def withPage (c : Cursor) (page : List ChangelogEntry) : Cursor :=
  { c with
    unfetched := match page.getLast? with
      | some x => x.seq + 1
      | none => c.unfetched
    buffer := page
    isDone := page.length < c.pageSize }

/-- Gives out the first entry of the buffer. -/
def pop (c : Cursor) : Option ChangelogEntry × Cursor :=
  match c.buffer with
  | x :: rest => (some x, { c with buffer := rest })
  | [] => (none, c)

/-- Gives out the next entry, none at the end; `fetch` reads a page. -/
def next (fetch : Int → Nat → List ChangelogEntry) (c : Cursor) : Option ChangelogEntry × Cursor :=
  (if c.needsPage then c.withPage (fetch c.unfetched c.pageSize) else c).pop

/-- The cursor behind a page that could not be fetched. -/
def withoutPage (c : Cursor) : Cursor := { c with isDone := true }

/-- Gives out the next entry, none at the end, or why its page could not be fetched. -/
def tryNext {ε : Type} (fetch : Int → Nat → Except ε (List ChangelogEntry)) (c : Cursor) :
    Except ε (Option ChangelogEntry) × Cursor :=
  if c.needsPage then
    match fetch c.unfetched c.pageSize with
    | .ok page => ((c.withPage page).pop).map .ok id
    | .error e => (.error e, c.withoutPage)
  else c.pop.map .ok id

/-- Gives out at most so many entries, one after the other. -/
def take (fetch : Int → Nat → List ChangelogEntry) : Nat → Cursor → List ChangelogEntry × Cursor
  | 0, c => ([], c)
  | n + 1, c => match c.next fetch with
    | (none, c') => ([], c')
    | (some x, c') => (take fetch n c').map (x :: ·) id

end Cursor

end Biblio
