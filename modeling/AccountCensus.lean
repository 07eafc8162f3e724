import AccountCensus.Main
import AccountCensus.Proofs.Cadence
import AccountCensus.Proofs.Callers
import AccountCensus.Proofs.Cancellation
import AccountCensus.Proofs.Deadlines
import AccountCensus.Proofs.Durations
import AccountCensus.Proofs.Failures
import AccountCensus.Proofs.Fetches
import AccountCensus.Proofs.Folding
import AccountCensus.Proofs.Isolation
import AccountCensus.Proofs.LatestAnswer
import AccountCensus.Proofs.Legality
import AccountCensus.Proofs.Loading
import AccountCensus.Proofs.Meaning
import AccountCensus.Proofs.OnDemand
import AccountCensus.Proofs.Orders
import AccountCensus.Proofs.Panic
import AccountCensus.Proofs.Positional
import AccountCensus.Proofs.Readout
import AccountCensus.Proofs.Requests
import AccountCensus.Proofs.Scrape
import AccountCensus.Proofs.Timetable
import AccountCensus.Proofs.Watching
import AccountCensus.Service.Command
import AccountCensus.Store.Command
