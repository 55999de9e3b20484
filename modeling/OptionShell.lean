import OptionShell.Main
import OptionShell.Options.Setter
import OptionShell.Proofs.Registry.Consistency
import OptionShell.Proofs.Registry.Selection
import OptionShell.Proofs.Registry.Calls
import OptionShell.Proofs.Options.Policy
import OptionShell.Proofs.Result
import OptionShell.Proofs.Options.RosterText
import OptionShell.Proofs.Options.Operation
import OptionShell.Proofs.Options.RosterCoherence
import OptionShell.Proofs.Shell.Family
import OptionShell.Proofs.Leads
import OptionShell.Proofs.Shell.Sound
import OptionShell.Proofs.Shell.Settings
import OptionShell.Proofs.Options.Inheritance
import OptionShell.Proofs.Shell.Start
import OptionShell.Proofs.Shell.Loading
import OptionShell.Proofs.Shell.Inheritance
import OptionShell.Proofs.Shell.Moves
import OptionShell.Proofs.Shell.Commands
import OptionShell.Proofs.Shell.Lines
import OptionShell.Proofs.Shell.Privilege
import OptionShell.Proofs.Shell.Guarded
import OptionShell.Proofs.Interpreter.AndOrLists
import OptionShell.Proofs.Line.Quoting
import OptionShell.Proofs.Shell.Reachable
import OptionShell.Proofs.Interpreter.QuotedLine
import OptionShell.Proofs.Options.SavedFlags
import OptionShell.Proofs.Shell.ScopeFlags
import OptionShell.Proofs.Interpreter.Loading
import OptionShell.Proofs.Interpreter.LoadedRosters
import OptionShell.Proofs.Interpreter.Unloading
import OptionShell.Proofs.Options.RosterTransfer
import OptionShell.Proofs.Options.BothRosters
import OptionShell.Proofs.Options.AccessControl
import OptionShell.Proofs.Interpreter.RecordedStatus
import OptionShell.Proofs.Line.Cutting
import OptionShell.Proofs.Line.Trimming
import OptionShell.Proofs.Line.Operators
import OptionShell.Proofs.Line.Agreement
import OptionShell.Proofs.Line.Joining
import OptionShell.Proofs.Interpreter.PlainLine
import OptionShell.Proofs.Line.DoubleQuotes
import OptionShell.Proofs.Line.Fragments
import OptionShell.Proofs.Interpreter.References
import OptionShell.Proofs.Interpreter.JoinedLine
import OptionShell.Proofs.Interpreter.QuotedReference
import OptionShell.Proofs.Interpreter.Effects
import OptionShell.Proofs.Interpreter.Scopes
import OptionShell.Proofs.Interpreter.LineCalls
import OptionShell.Proofs.Interpreter.GuardedCalls
import OptionShell.Proofs.Options.ListingText
import OptionShell.Proofs.Interpreter.ListingReplay
import OptionShell.Proofs.Shell.Sessions
import OptionShell.Proofs.Shell.Cleanup
import OptionShell.Proofs.Shell.EncodedInput
import OptionShell.Proofs.Commutes
import OptionShell.Proofs.Interpreter.Composition
import OptionShell.Proofs.Interpreter.Diagnostics
import OptionShell.Proofs.Shell.InputForms
import OptionShell.Proofs.Shell.BlankLines
import OptionShell.Proofs.Interpreter.Depth
import OptionShell.Proofs.Interpreter.Nesting
import OptionShell.Proofs.Line.Weight
import OptionShell.Proofs.Interpreter.InsertedDollars
import OptionShell.Proofs.Shell.LastMention
import OptionShell.Proofs.Shell.Finishing
import OptionShell.Proofs.Shell.Completion
import OptionShell.Proofs.Prime.SmallestFactor
import OptionShell.Proofs.Prime.Checked
import OptionShell.Proofs.Prime.Division
import OptionShell.Proofs.Prime.Report
import OptionShell.Proofs.Text.Numeral
import OptionShell.Proofs.Prime.Verdict
import OptionShell.Proofs.Variables
import OptionShell.Proofs.Prime.Command
import OptionShell.Proofs.Shell.WritableVariables
import OptionShell.Proofs.Shell.Factorization
import OptionShell.Proofs.Prime.Agreement
import OptionShell.Proofs.Shell.PrimeState
import OptionShell.Proofs.Shell.Equipped
import OptionShell.Proofs.Shell.Tracking
import OptionShell.Proofs.Shell.PrimeUses
import OptionShell.Proofs.Shell.PrimeReports
import OptionShell.Proofs.Options.Requests
import OptionShell.Proofs.Registry.Letters
import OptionShell.Proofs.Options.LetterCache
import OptionShell.Proofs.Options.Registration
import OptionShell.Proofs.Options.FlagRestoration
import OptionShell.Proofs.Options.InheritedNames
import OptionShell.Proofs.Options.MirroringSetters
import OptionShell.Proofs.Options.RosterNames
import OptionShell.Proofs.Options.StateListings
import OptionShell.Proofs.Shell.LetterClusters
import OptionShell.Proofs.Prime.Reading
