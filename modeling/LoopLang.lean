import LoopLang.Node.OneLine
import LoopLang.Machine.Run
import LoopLang.Java.Program
import LoopLang.Proofs.Prune
import LoopLang.Proofs.Reachability
import LoopLang.Proofs.JavaRun
import LoopLang.Proofs.Meaning
import LoopLang.Proofs.JavaTokens
import LoopLang.Proofs.JavaGrammar
import LoopLang.Proofs.JavaScan
import LoopLang.Proofs.JavaSpelling
import LoopLang.Proofs.ReadBack
import LoopLang.Proofs.ProgramText
import LoopLang.Proofs.JavaProgress
import LoopLang.Proofs.NaturalSemantics
import LoopLang.Proofs.Starts
import LoopLang.Proofs.StepLimit
import LoopLang.Proofs.CheckedRuns
import LoopLang.Proofs.Events
import LoopLang.Proofs.Bindings
import LoopLang.Proofs.Declarations
import LoopLang.Proofs.Rounding
import LoopLang.Proofs.ShortestDigits
import LoopLang.Proofs.JavaChoice
import LoopLang.Proofs.NumberText
import LoopLang.Proofs.NumberLayout
import LoopLang.Proofs.Labels
import LoopLang.Proofs.Outline
import LoopLang.Proofs.Choices
import LoopLang.Proofs.Paths
import LoopLang.Proofs.StrayExits
import LoopLang.Proofs.Output
import LoopLang.Proofs.Capture
import LoopLang.Proofs.JavaNumbers
import LoopLang.Proofs.LineDepths
import LoopLang.Proofs.MissingVariables
import LoopLang.Proofs.Doubles
import LoopLang.Proofs.EvaluationOrder
import LoopLang.Proofs.OneLineText
import LoopLang.Proofs.Visitors
import LoopLang.Proofs.Preorder
import LoopLang.Proofs.LastWrites
import LoopLang.Proofs.FreeNames
import LoopLang.Proofs.CapturedLines
