import DebtChannel.Abi.Value
import DebtChannel.Entropy
import DebtChannel.Adjudicator.InMemory
import DebtChannel.Opening.Message
import DebtChannel.Channel.Operation
import DebtChannel.Registry.Operation
import DebtChannel.Proofs.Settling
import DebtChannel.Proofs.AbiLayout
import DebtChannel.Proofs.AbiDecodable
import DebtChannel.Proofs.StateBinding
import DebtChannel.Proofs.TurnCounters
import DebtChannel.Proofs.Finality
import DebtChannel.Proofs.ZeroFree
import DebtChannel.Proofs.LedgerBook
import DebtChannel.Proofs.WireFields
import DebtChannel.Proofs.WireMessages
import DebtChannel.Proofs.LedgerCodec
import DebtChannel.Proofs.StateCodec
import DebtChannel.Draft.Operation
import DebtChannel.Proofs.DraftCodec
import DebtChannel.Proofs.SettlementPacking
import DebtChannel.Proofs.AbiSpecification
import DebtChannel.Proofs.WellFormed
import DebtChannel.Proofs.FundingOrder
import DebtChannel.Proofs.FailedOperations
import DebtChannel.Proofs.HandedOutTurns
import DebtChannel.Proofs.SupportedProposals
import DebtChannel.Proofs.FreshDrafts
import DebtChannel.Proofs.SignerSets
import DebtChannel.Proofs.LedgerContents
import DebtChannel.Proofs.LedgerMerging
import DebtChannel.Proofs.HeldStates
import DebtChannel.Proofs.BuiltOpenings
import DebtChannel.Proofs.UsableOpenings
import DebtChannel.Proofs.AgreedLedgers
import DebtChannel.Proofs.MemberLiabilities
import DebtChannel.Proofs.AfterSettlement
import DebtChannel.Proofs.OpeningCodec
import DebtChannel.Proofs.ListedPayouts
import DebtChannel.Proofs.CoveredDeposits
import DebtChannel.Proofs.PhaseOrder
import DebtChannel.Proofs.OpenChannels
import DebtChannel.Proofs.WrittenLedgers
import DebtChannel.Proofs.LedgerMessages
import DebtChannel.Proofs.SettlementPlaces
import DebtChannel.Proofs.EncodedValues
