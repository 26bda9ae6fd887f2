import Dynascope.Main
import Dynascope.Proofs.FramedRuns
import Dynascope.Proofs.MinifiedRuns
import Dynascope.Proofs.EarliestErrors
import Dynascope.Proofs.Segments
import Dynascope.Proofs.Spans
import Dynascope.Proofs.LongestMatch
import Dynascope.Proofs.Similarity
import Dynascope.Proofs.CallLimit
import Dynascope.Proofs.Termination
import Dynascope.Proofs.RpnRuns
import Dynascope.Proofs.JoinedInputs
import Dynascope.Proofs.BlockRuns
import Dynascope.Proofs.UnmentionedNames
import Dynascope.Proofs.BuiltinsFrame
import Dynascope.Proofs.RangeLoops
import Dynascope.Proofs.Transcripts
import Dynascope.Proofs.OneLine
import Dynascope.Proofs.ProgramJson
import Dynascope.Proofs.AssignmentFree
import Dynascope.Proofs.LeastParens
import Dynascope.Proofs.SinkLimit
import Dynascope.Proofs.SpacedTokens
import Dynascope.Proofs.ScopeLaws
import Dynascope.Proofs.TrialDivision
import Dynascope.Proofs.StackTexts
