import ReactiveScript.Proofs.Announcements
import ReactiveScript.Proofs.Balance
import ReactiveScript.Proofs.Casts
import ReactiveScript.Proofs.Closures
import ReactiveScript.Proofs.Comparisons
import ReactiveScript.Proofs.FailedAssignments
import ReactiveScript.Proofs.Constants
import ReactiveScript.Proofs.ContainerLaws
import ReactiveScript.Proofs.Declarations
import ReactiveScript.Proofs.Following
import ReactiveScript.Proofs.ForcingLaws
import ReactiveScript.Proofs.Listeners
import ReactiveScript.Proofs.Meaning
import ReactiveScript.Proofs.ErrorOperands
import ReactiveScript.Proofs.Extension
import ReactiveScript.Proofs.FreshKeys
import ReactiveScript.Proofs.IntegerArithmetic
import ReactiveScript.Proofs.IntegerCasts
import ReactiveScript.Proofs.JsonTexts
import ReactiveScript.Proofs.MapAlgebra
import ReactiveScript.Proofs.Polling
import ReactiveScript.Proofs.Positions
import ReactiveScript.Proofs.Repetition
import ReactiveScript.Proofs.ScopeGuards
import ReactiveScript.Proofs.ScriptOutcomes
import ReactiveScript.Proofs.Initialisation
import ReactiveScript.Proofs.Negation
import ReactiveScript.Proofs.NestedSignals
import ReactiveScript.Proofs.Notifying
import ReactiveScript.Proofs.Subscriptions
import ReactiveScript.Proofs.Termination
import ReactiveScript.Proofs.HookOrder
import ReactiveScript.Proofs.ErrorRouting
import ReactiveScript.Proofs.ErrorLocations
import ReactiveScript.Proofs.Excerpts
import ReactiveScript.Proofs.Tallies
import ReactiveScript.Proofs.Waves
import ReactiveScript.Report.Tables
import ReactiveScript.Session.Step
