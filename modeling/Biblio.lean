import Biblio.Catalog.Operation
import Biblio.Catalog.Query
import Biblio.Main
import Biblio.Store.Cell
import Biblio.Store.FromClause
import Biblio.Proofs.Effect
import Biblio.Proofs.Change
import Biblio.Proofs.Integrity
import Biblio.Proofs.Changelog
import Biblio.Proofs.Course
import Biblio.Proofs.Writes
import Biblio.Proofs.Deeds
import Biblio.Proofs.Operations
import Biblio.Proofs.Metadata
import Biblio.Proofs.Redirects
import Biblio.Proofs.Acceptance
import Biblio.Proofs.Replay
import Biblio.Proofs.Overlap
import Biblio.Proofs.Shapes
import Biblio.Proofs.Entries
import Biblio.Proofs.Independence
import Biblio.Proofs.Race
import Biblio.Proofs.Permanence
import Biblio.Proofs.Readers
import Biblio.Proofs.Freshness
import Biblio.Proofs.Clearing
import Biblio.Proofs.StagingOrder
import Biblio.Proofs.Allocation
import Biblio.Proofs.Results
import Biblio.Proofs.Rounding
import Biblio.Proofs.Numbers
import Biblio.Proofs.Reading
import Biblio.Proofs.Canonical
import Biblio.Proofs.Decoding
import Biblio.Proofs.Spelling
import Biblio.Proofs.RoundTrip
import Biblio.Proofs.Creation
import Biblio.Proofs.Views
import Biblio.Proofs.Lookups
import Biblio.Proofs.References
import Biblio.Proofs.Iteration
import Biblio.Proofs.Legibility
import Biblio.Proofs.Drawn
import Biblio.Proofs.Failures
import Biblio.Proofs.Refusals
import Biblio.Proofs.Requests
import Biblio.Proofs.Rules
import Biblio.Proofs.Links
import Biblio.Proofs.NewEntities
import Biblio.Proofs.Publication
import Biblio.Proofs.Expansion
import Biblio.Proofs.Tokens
import Biblio.Proofs.RegistryGrammar
import Biblio.Proofs.OwnWork
import Biblio.Proofs.Working
import Biblio.Proofs.ActiveEditgroups
import Biblio.Proofs.DayNumbers
import Biblio.Proofs.TextOrder
import Biblio.Proofs.WrittenTimes
import Biblio.Proofs.StoredTimes
import Biblio.Proofs.Records
