import TradingStrategy.Main
import TradingStrategy.Edit.Editor
import TradingStrategy.Proofs.WellFormed
import TradingStrategy.Proofs.Density
import TradingStrategy.Proofs.FanOutRefinement
import TradingStrategy.Proofs.PayloadRoundTrip
import TradingStrategy.Proofs.Alignment
import TradingStrategy.Proofs.UniqueIds
import TradingStrategy.Proofs.Integrity
import TradingStrategy.Proofs.GraphUndo
import TradingStrategy.Proofs.Undo
import TradingStrategy.Proofs.Disconnect
import TradingStrategy.Proofs.Healing
import TradingStrategy.Proofs.Batches
import TradingStrategy.Proofs.BatchDeletion
import TradingStrategy.Proofs.StrategyForms
import TradingStrategy.Proofs.Emission
import TradingStrategy.Proofs.Reading
import TradingStrategy.Proofs.Codec
import TradingStrategy.Proofs.IdleEdits
import TradingStrategy.Proofs.HandleText
import TradingStrategy.Proofs.Agenda
import TradingStrategy.Proofs.ReloadedActions
import TradingStrategy.Proofs.Renumbering
import TradingStrategy.Proofs.Walk
import TradingStrategy.Proofs.Integers
import TradingStrategy.Proofs.Loading
import TradingStrategy.Proofs.Anonymous
import TradingStrategy.Proofs.Retries
import TradingStrategy.Proofs.PeriodGrammar
import TradingStrategy.Proofs.Confined
