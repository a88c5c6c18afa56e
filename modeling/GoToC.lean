import GoToC.Command.Directory
import GoToC.Main
import GoToC.Proofs.Grammar.Clauses
import GoToC.Proofs.Grammar.Entries
import GoToC.Proofs.Grammar.Faults
import GoToC.Proofs.Grammar.FileAccounts
import GoToC.Proofs.Grammar.WrittenExprs
import GoToC.Proofs.Names
import GoToC.Proofs.Routine.Hoisting
import GoToC.Proofs.Routine.ParamNames
import GoToC.Proofs.Session.Constants
import GoToC.Proofs.Session.Declared
import GoToC.Proofs.Session.ErrorPlaces
import GoToC.Proofs.Session.KeptTables
import GoToC.Proofs.Session.Loops
import GoToC.Proofs.Session.Nesting
import GoToC.Proofs.Session.OwnNames
import GoToC.Proofs.Session.Pointers
import GoToC.Proofs.Session.Rearranged
import GoToC.Proofs.Session.Records
import GoToC.Proofs.Session.Supplies
import GoToC.Proofs.Session.Unfinished
import GoToC.Proofs.Session.Zeroed
import GoToC.Proofs.Source.Positions
import GoToC.Proofs.Token.Literals
import GoToC.Proofs.Token.Spelling
import GoToC.Proofs.Types.Conversions
import GoToC.Proofs.Types.Display
import GoToC.Proofs.Types.Resolution
import GoToC.Tree.Printer
import GoToC.Types.Workbench
