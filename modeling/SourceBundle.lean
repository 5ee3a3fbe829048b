import SourceBundle.Main
import SourceBundle.Proofs.Production.Comments
import SourceBundle.Proofs.Production.FixedPoint
import SourceBundle.Proofs.Production.Operators
import SourceBundle.Proofs.Production.Tokens
import SourceBundle.Proofs.Production.LineStarts
import SourceBundle.Proofs.Embedded.Declarations
import SourceBundle.Proofs.Embedded.JoiningLoop
import SourceBundle.Proofs.Embedded.LineFilter
import SourceBundle.Proofs.Production.Composition
import SourceBundle.Proofs.Production.NormalForm
import SourceBundle.Proofs.Collect.Exactness
import SourceBundle.Proofs.Bundle.Runs
import SourceBundle.Proofs.Bundle.Again
import SourceBundle.Proofs.Bundle.Temporary
import SourceBundle.Proofs.Production.Shifts
import SourceBundle.Proofs.Production.StatementPlaces
import SourceBundle.Proofs.Production.Separating
import SourceBundle.Proofs.Production.SeparatorPlaces
import SourceBundle.Proofs.Production.StatementBoundaries
import SourceBundle.Proofs.Production.LineReduction
import SourceBundle.Proofs.Embedded.LineEndings
import SourceBundle.Proofs.Embedded.SecondRun
import SourceBundle.Proofs.Bundle.Sizes
import SourceBundle.Proofs.Config.UnknownKeys
import SourceBundle.Proofs.Bundle.OutputPaths
import SourceBundle.Proofs.Command.Stages
