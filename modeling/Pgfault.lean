import Pgfault.AcknowledgementGate
import Pgfault.CompletionPrediction
import Pgfault.CopyGroups
import Pgfault.CycleNumbers
import Pgfault.Delays
import Pgfault.FailingWrites
import Pgfault.Framing
import Pgfault.Losses
import Pgfault.NameMaps
import Pgfault.PreparedNames
import Pgfault.ReplayFidelity
import Pgfault.Reproduction
import Pgfault.ScannerTotality
import Pgfault.SealingDiscipline
import Pgfault.Selection
import Pgfault.ServerClose
import Pgfault.StartupParameters
import Pgfault.StatementBatches
import Pgfault.SuppressedFrames
import Pgfault.TimingIndependence
import Pgfault.TraceFile
import Pgfault.TransactionEpochs
import Pgfault.Truncation
