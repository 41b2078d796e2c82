import CalculatorRpc.EventRuns
import CalculatorRpc.LittleEndianWords
import CalculatorRpc.NearestDouble
import CalculatorRpc.PrefixCodes
import CalculatorRpc.StreamFraming
import CalculatorRpc.TcpTransport
import CalculatorRpc.LinkDelivery
import CalculatorRpc.CallExtents
import CalculatorRpc.StreamEnding
import CalculatorRpc.FrameAcceptance
import CalculatorRpc.FallibleRuns
import CalculatorRpc.SpendingRuns
import CalculatorRpc.LogForecasts
import CalculatorRpc.StartTraces
import CalculatorRpc.Expression
import CalculatorRpc.Evaluate
import CalculatorRpc.ParameterSubstitution
import CalculatorRpc.RequestOrder
import CalculatorRpc.Session
import CalculatorRpc.StaticForm
import CalculatorRpc.FunctionInlining
import CalculatorRpc.PipelinedResults
import CalculatorRpc.RequestMachine
import CalculatorRpc.RequestSchedules
import CalculatorRpc.SessionTermination
import CalculatorRpc.ScheduleTermination
import CalculatorRpc.ReadBudget
import CalculatorRpc.SessionForecasts
import CalculatorRpc.ConnectionLock
import CalculatorRpc.ListIndexing
import CalculatorRpc.IndexSafety
import CalculatorRpc.SectionFields
import CalculatorRpc.MessageStructs
import CalculatorRpc.ExpressionAccessors
import CalculatorRpc.ExpressionBuilding
import CalculatorRpc.StructEvaluation
import CalculatorRpc.CallDispatch
import CalculatorRpc.WireSessions
import CalculatorRpc.StressRounds
import CalculatorRpc.RecordLayouts
import CalculatorRpc.FrameScripts
import CalculatorRpc.FramePrinting
import CalculatorRpc.ServerProcess
import CalculatorRpc.AnswerDelivery
