import Regression.Main
import Regression.Program
import Regression.Proofs.Account
import Regression.Proofs.Agreement
import Regression.Proofs.Allowance
import Regression.Proofs.Apart
import Regression.Proofs.Arguments
import Regression.Proofs.Attempts
import Regression.Proofs.Balance
import Regression.Proofs.Books
import Regression.Proofs.Census
import Regression.Proofs.Checks
import Regression.Proofs.Choosing
import Regression.Proofs.Cleaning
import Regression.Proofs.Commits
import Regression.Proofs.Conditions
import Regression.Proofs.Course
import Regression.Proofs.Cutoff
import Regression.Proofs.Deeds
import Regression.Proofs.DefaultsText
import Regression.Proofs.Descriptions
import Regression.Proofs.Detours
import Regression.Proofs.Edits
import Regression.Proofs.Encoding
import Regression.Proofs.ExitCodes
import Regression.Proofs.Expansion
import Regression.Proofs.Exports
import Regression.Proofs.FatalEnd
import Regression.Proofs.Fates
import Regression.Proofs.FileSteps
import Regression.Proofs.Forwarding
import Regression.Proofs.Grammar
import Regression.Proofs.GraphCounts
import Regression.Proofs.GraphWalk
import Regression.Proofs.Graphing
import Regression.Proofs.Guarding
import Regression.Proofs.Inheritance
import Regression.Proofs.Interleaving
import Regression.Proofs.Job
import Regression.Proofs.Journal
import Regression.Proofs.Keeps
import Regression.Proofs.Lasting
import Regression.Proofs.LastingSetup
import Regression.Proofs.Launching
import Regression.Proofs.Leftovers
import Regression.Proofs.Lines
import Regression.Proofs.Listing
import Regression.Proofs.Literals
import Regression.Proofs.Lookup
import Regression.Proofs.Markers
import Regression.Proofs.Modes
import Regression.Proofs.Moving
import Regression.Proofs.Names
import Regression.Proofs.Neighbours
import Regression.Proofs.Newlines
import Regression.Proofs.Normalizing
import Regression.Proofs.Notes
import Regression.Proofs.OneLine
import Regression.Proofs.Onward
import Regression.Proofs.Outline
import Regression.Proofs.Passes
import Regression.Proofs.Pieces
import Regression.Proofs.Plan
import Regression.Proofs.Precedence
import Regression.Proofs.Prologue
import Regression.Proofs.Provision
import Regression.Proofs.Publishing
import Regression.Proofs.Reading
import Regression.Proofs.Reads
import Regression.Proofs.Reckoning
import Regression.Proofs.Recording
import Regression.Proofs.Removal
import Regression.Proofs.Reporting
import Regression.Proofs.Rescan
import Regression.Proofs.Resolving
import Regression.Proofs.Roots
import Regression.Proofs.RoundTrip
import Regression.Proofs.Runs
import Regression.Proofs.Schedules
import Regression.Proofs.Selection
import Regression.Proofs.Siblings
import Regression.Proofs.Sorting
import Regression.Proofs.Sound
import Regression.Proofs.Spot
import Regression.Proofs.Standing
import Regression.Proofs.Steady
import Regression.Proofs.Steps
import Regression.Proofs.Tally
import Regression.Proofs.Targets
import Regression.Proofs.Tended
import Regression.Proofs.Tools
import Regression.Proofs.Traces
import Regression.Proofs.Trusting
import Regression.Proofs.Unlinked
import Regression.Proofs.Unmarked
import Regression.Proofs.Upkeep
import Regression.Proofs.Values
import Regression.Proofs.Variables
import Regression.Proofs.Verdicts
import Regression.Proofs.Vetting
import Regression.Proofs.View
import Regression.Proofs.Visits
import Regression.Proofs.Walk
import Regression.Proofs.WaysOut
