import Mainsail.Consensus.Recovery
import Mainsail.Consensus.Agreement
import Mainsail.Crypto.SigningDomains
import Mainsail.Crypto.SignedTransactions
import Mainsail.Crypto.ProposalFactory
import Mainsail.Contracts.RoundFormation
import Mainsail.Contracts.Refunds
import Mainsail.Contracts.BlsKeys
import Mainsail.Evm.HistoricalReads
import Mainsail.Evm.VoteWeights
import Mainsail.Processor.SizeVerifier
import Mainsail.Processor.BlockProcessor
import Mainsail.P2P.ProposalDownloader
import Mainsail.P2P.GetMessages
import Mainsail.P2P.BlockDownloadOrder
import Mainsail.P2P.Throttle
import Mainsail.Consensus.MessageProcessor
import Mainsail.CryptoConfig.MilestoneReads
import Mainsail.BlockchainUtils.TimestampCalculator
import Mainsail.Consensus.VoteCounting
import Mainsail.Consensus.Submissions
import Mainsail.Consensus.PendingJobs
import Mainsail.ApiSync.ValidatorRounds
import Mainsail.Contracts.UsernameGrammar
import Mainsail.TransactionPool.Batches
import Mainsail.P2P.PeerConnector
import Mainsail.Evm.Compression
import Mainsail.ApiSync.MultiPayments
